import Mathlib.Data.List.Forall2

/-!
# Computations that can fail

What a sequence of two computations returns, and the invariant rule for a loop: what holds at the
start and is kept by every turn holds at the end, together with the items that have been visited.
A loop over several states at once is a loop over each of them (`forall₂_foldlM`).
-/

namespace ExceptLoop

universe u

variable {α ε : Type*} {β γ : Type u}

variable {x : Except ε β} {b r : β} {f : β → α → Except ε β} {items : List α} {κ : Type*}

/-- A sequence of two computations succeeds with a value if both do. -/
lemma bind_eq_ok {f : β → Except ε γ} {c : γ} : x >>= f = .ok c ↔ ∃ b, x = .ok b ∧ f b = .ok c := by
  cases x with
  | error e => simp [bind, Except.bind]
  | ok b => simp [bind, Except.bind]

/-- A function of what a computation returns. -/
lemma map_eq_ok {f : β → γ} {c : γ} : x.map f = .ok c ↔ ∃ b, x = .ok b ∧ f b = c := by
  cases x <;> simp [Except.map]

/-- A computation that is known to succeed. -/
lemma exists_eq_ok (h : x.toOption.isSome = true) : ∃ b, x = .ok b := by
  cases x with
  | error e => cases h
  | ok b => exact ⟨b, rfl⟩

lemma eq_ok_of_toOption (h : x.toOption = some b) : x = .ok b := by
  cases x with
  | error e => cases h
  | ok b' =>
    cases h
    rfl

/-- Changing the failures of a computation keeps what it succeeds with. -/
lemma mapError_eq_ok {ε' : Type*} {f : ε → ε'} : x.mapError f = .ok b ↔ x = .ok b := by
  cases x <;> simp [Except.mapError]

/-- A loop over a list with a first item: its first turn, and the loop over the others. -/
lemma foldlM_cons_eq_ok {a : α} :
    (a :: items).foldlM f b = .ok r ↔ ∃ b', f b a = .ok b' ∧ items.foldlM f b' = .ok r := by
  rw [List.foldlM_cons, bind_eq_ok]

/-- The invariant rule, for a loop of which some items have been visited. -/
lemma foldlM_invariant_append (motive : List α → β → Prop) (done : List α)
    (hstep : ∀ visited a rest b b', done ++ items = visited ++ a :: rest → motive visited b →
      f b a = .ok b' → motive (visited ++ [a]) b') (hstart : motive done b)
    (h : items.foldlM f b = .ok r) : motive (done ++ items) r := by
  induction items generalizing done b with
  | nil =>
    rw [List.foldlM_nil] at h
    cases h
    rwa [List.append_nil]
  | cons a items ih =>
    obtain ⟨b', hb, hrest⟩ := foldlM_cons_eq_ok.mp h
    have happend : done ++ [a] ++ items = done ++ a :: items := by simp
    have hnext := hstep done a items b b' rfl hstart hb
    have hresult := ih (done ++ [a]) (fun visited a' rest b b' heq =>
      hstep visited a' rest b b' (by rw [← happend, heq])) hnext hrest
    rwa [happend] at hresult

/-- What holds at the start and is kept by every turn holds at the end. -/
lemma foldlM_invariant (motive : List α → β → Prop)
    (hstep : ∀ visited a rest b b', items = visited ++ a :: rest → motive visited b →
      f b a = .ok b' → motive (visited ++ [a]) b') (hstart : motive [] b)
    (h : items.foldlM f b = .ok r) : motive items r :=
  foldlM_invariant_append motive [] hstep hstart h

/-- A loop none of whose turns fails. -/
lemma foldlM_ok {g : β → α → β} (h : ∀ a ∈ items, ∀ b, f b a = .ok (g b a)) (b : β) :
    items.foldlM f b = .ok (items.foldl g b) := by
  induction items generalizing b with
  | nil => rfl
  | cons a items ih =>
    rw [List.foldlM_cons, h a List.mem_cons_self, List.foldl_cons]
    exact ih (fun c hc => h c (List.mem_cons_of_mem _ hc)) (g b a)

/-- A loop over the items of several lists. -/
lemma foldlM_flatMap {γ : Type*} {g : γ → List α} {items : List γ} :
    (items.flatMap g).foldlM f b = items.foldlM (fun b c => (g c).foldlM f b) b := by
  induction items generalizing b with
  | nil => rfl
  | cons c items ih =>
    rw [List.flatMap_cons, List.foldlM_append, List.foldlM_cons]
    exact congrArg (((g c).foldlM f b) >>= ·) (funext fun b => ih)

/-- A loop over distinct keys, where a turn looks at what is under its key and leaves what is under
the others: what each key had is related to what it has at the end. -/
lemma foldlM_visit {γ : Type*} (get : β → κ → γ) (R : κ → γ → γ → Prop) (motive : β → Prop)
    {f : β → κ → Except ε β}
    (hstep : ∀ b k b', motive b → f b k = .ok b' → motive b' ∧ R k (get b k) (get b' k) ∧
      ∀ k', k ≠ k' → get b' k' = get b k') {keys : List κ} (hnodup : keys.Nodup)
    (hstart : motive b) (h : keys.foldlM f b = .ok r) :
    motive r ∧ (∀ k ∈ keys, R k (get b k) (get r k)) ∧ ∀ k, k ∉ keys → get r k = get b k := by
  induction keys generalizing b with
  | nil =>
    cases h
    exact ⟨hstart, fun _ hk => absurd hk List.not_mem_nil, fun _ _ => rfl⟩
  | cons k keys ih =>
    obtain ⟨hk, hkeys⟩ := List.nodup_cons.mp hnodup
    obtain ⟨b', hb, hrest⟩ := foldlM_cons_eq_ok.mp h
    obtain ⟨hnext, hrelated, hsame⟩ := hstep b k b' hstart hb
    obtain ⟨hend, hin, hout⟩ := ih hkeys hnext hrest
    refine ⟨hend, fun k' hk' => ?_, fun k' hk' => ?_⟩
    · rcases List.mem_cons.mp hk' with rfl | hmem
      · rw [hout _ hk]
        exact hrelated
      · rw [← hsame k' fun heq => hk (heq ▸ hmem)]
        exact hin k' hmem
    · rw [List.mem_cons, not_or] at hk'
      rw [hout k' hk'.2, hsame k' (Ne.symm hk'.1)]

/-- A loop over items with distinct keys, where a turn adds to a tally what the item and what is
under its key amount to, and leaves what is under the other keys. -/
lemma foldlM_tally {γ δ : Type*} (get : β → κ → γ) (tally : β → δ) (amount : α → γ → δ → δ)
    (key : α → κ) (motive : β → Prop)
    (hstep : ∀ b, ∀ a ∈ items, ∀ b', motive b → f b a = .ok b' → motive b' ∧
      tally b' = amount a (get b (key a)) (tally b) ∧ ∀ k, key a ≠ k → get b' k = get b k)
    (hnodup : (items.map key).Nodup) (hstart : motive b) (h : items.foldlM f b = .ok r) :
    motive r ∧ tally r = items.foldl (fun t a => amount a (get b (key a)) t) (tally b) := by
  induction items generalizing b with
  | nil =>
    cases h
    exact ⟨hstart, rfl⟩
  | cons a items ih =>
    obtain ⟨ha, hitems⟩ := List.nodup_cons.mp hnodup
    obtain ⟨b', hb, hrest⟩ := foldlM_cons_eq_ok.mp h
    obtain ⟨hnext, htally, hsame⟩ := hstep b a List.mem_cons_self b' hstart hb
    obtain ⟨hend, hrest⟩ := ih (fun b a' ha' => hstep b a' (List.mem_cons_of_mem _ ha')) hitems
      hnext hrest
    refine ⟨hend, ?_⟩
    rw [hrest, List.foldl_cons, htally]
    refine List.foldl_ext _ _ _ fun t a' ha' => ?_
    rw [hsame (key a') fun heq => ha (heq ▸ List.mem_map_of_mem ha')]

/-- A loop over distinct keys returns if every turn does for what was under its key at the start. -/
lemma foldlM_returns {γ : Type*} (get : β → κ → γ) (good : κ → γ → Prop) {f : β → κ → Except ε β}
    (hstep : ∀ b k, good k (get b k) → ∃ b', f b k = .ok b' ∧ ∀ k', k ≠ k' → get b' k' = get b k')
    {keys : List κ} (hnodup : keys.Nodup) (hgood : ∀ k ∈ keys, good k (get b k)) :
    ∃ r, keys.foldlM f b = .ok r := by
  induction keys generalizing b with
  | nil => exact ⟨b, rfl⟩
  | cons k keys ih =>
    obtain ⟨hk, hkeys⟩ := List.nodup_cons.mp hnodup
    obtain ⟨b', hb, hsame⟩ := hstep b k (hgood k List.mem_cons_self)
    have hgood' : ∀ k' ∈ keys, good k' (get b' k') := by
      intro k' hk'
      rw [hsame k' fun heq => hk (heq ▸ hk')]
      exact hgood k' (List.mem_cons_of_mem _ hk')
    obtain ⟨r, hr⟩ := ih hkeys hgood'
    exact ⟨r, foldlM_cons_eq_ok.mpr ⟨b', hb, hr⟩⟩

/-! ## Several states at once -/

/-- A computation on every item of a list succeeds if it does on each of them. -/
lemma mapM_eq_ok {ε : Type u} {α β : Type u} {f : α → Except ε β} {l : List α} {r : List β} :
    l.mapM f = .ok r ↔ List.Forall₂ (fun a b => f a = .ok b) l r := by
  induction l generalizing r with
  | nil =>
    rw [List.mapM_nil, List.forall₂_nil_left_iff]
    exact ⟨fun h => (Except.ok.inj h).symm, fun h => congrArg Except.ok h.symm⟩
  | cons a l ih =>
    rw [List.mapM_cons, List.forall₂_cons_left_iff, bind_eq_ok]
    constructor
    · rintro ⟨b, hb, h⟩
      obtain ⟨bs, hbs, h⟩ := bind_eq_ok.mp h
      exact ⟨b, bs, hb, ih.mp hbs, (Except.ok.inj h).symm⟩
    · rintro ⟨b, bs, hb, hbs, rfl⟩
      exact ⟨b, hb, bind_eq_ok.mpr ⟨bs, ih.mpr hbs, rfl⟩⟩

/-- Two relations that hold item by item are composed item by item. -/
lemma forall₂_trans {α β γ : Type*} {R : α → β → Prop} {S : β → γ → Prop} {T : α → γ → Prop}
    (h : ∀ a b c, R a b → S b c → T a c) {l : List α} {m : List β} {r : List γ}
    (hR : List.Forall₂ R l m) (hS : List.Forall₂ S m r) : List.Forall₂ T l r := by
  induction hR generalizing r with
  | nil =>
    cases hS
    exact .nil
  | cons hab _ ih =>
    cases hS with
    | cons hbc hrest => exact .cons (h _ _ _ hab hbc) (ih hrest)

/-- A loop whose turns do the same to each of several states does so as a whole. -/
lemma forall₂_foldlM {ε' : Type*} {step : List β → α → Except ε' (List β)}
    {each : β → α → Except ε β}
    (hstep : ∀ bs a rs, step bs a = .ok rs → List.Forall₂ (fun b r => each b a = .ok r) bs rs)
    {bs rs : List β} (h : items.foldlM step bs = .ok rs) :
    List.Forall₂ (fun b r => items.foldlM each b = .ok r) bs rs := by
  induction items generalizing bs with
  | nil =>
    cases h
    exact List.forall₂_same.mpr fun _ _ => rfl
  | cons a items ih =>
    obtain ⟨bs₁, hfirst, hrest⟩ := foldlM_cons_eq_ok.mp h
    exact forall₂_trans (fun b b₁ r hb hr => foldlM_cons_eq_ok.mpr ⟨b₁, hb, hr⟩)
      (hstep bs a bs₁ hfirst) (ih hrest)

end ExceptLoop
