import Mathlib.Tactic.Common

/-!
# Reading an object field by field

A reader fills an object from a stream of tokens.  It is given the value the object has now and the
unread tokens, and returns the value it leaves the object with together with either the tokens it
did not consume or the failure it stopped at.  A reader that fails half-way leaves the fields it
has already read in place, as a reader that throws out of the middle of its field list does.

`Consumes r w a a'` is the total-correctness judgement of such readers: started on the object `a`
in front of the tokens `w`, the reader consumes exactly `w`, whatever follows, and leaves `a'`.
One rule for each combinator composes these judgements along the field list.
-/

namespace FieldReader

variable {ε τ α γ : Type*}

/-- A reader of objects of type `α` from a stream of tokens `τ`, failing with `ε`. -/
abbrev Reader (ε τ α : Type*) := α → List τ → α × Except ε (List τ)

/-- Read with `r`, then go on with `r'` unless `r` failed. -/
def andThen (r r' : Reader ε τ α) : Reader ε τ α := fun a ts =>
  match r a ts with
  | (a', .ok rest) => r' a' rest
  | (a', .error e) => (a', .error e)

/-- Read one field of an object, given how the field is taken out and put back. -/
def field (get : α → γ) (set : γ → α → α) (r : Reader ε τ γ) : Reader ε τ α := fun a ts =>
  (set (r (get a) ts).1 a, (r (get a) ts).2)

/-- Read into a variable of its own, with start value `c`, and drop what was read. -/
def discard (c : γ) (r : Reader ε τ γ) : Reader ε τ α := fun a ts => (a, (r c ts).2)

/-- Change the object without reading anything. -/
def update (f : α → α) : Reader ε τ α := fun a ts => (f a, .ok ts)

/-- Read with one of two readers, as the object read so far decides. -/
def branch (p : α → Bool) (r r' : Reader ε τ α) : Reader ε τ α := fun a ts =>
  if p a then r a ts else r' a ts

/-- Read with the reader that the object read so far calls for. -/
def choose (r : α → Reader ε τ α) : Reader ε τ α := fun a ts => r a a ts

/-- Fail without reading anything. -/
def fail (e : ε) : Reader ε τ α := fun a _ => (a, .error e)

/-- Read into a variable of its own, with start value `c`, and go on with what was read. -/
def scratch (c : γ) (r : Reader ε τ γ) (next : γ → Reader ε τ α) : Reader ε τ α := fun a ts =>
  match r c ts with
  | (c', .ok rest) => next c' a rest
  | (_, .error e) => (a, .error e)

/-- Read with `r i`, `r (i + 1)` and so on, a number of times. -/
def loop (r : ℕ → Reader ε τ α) : ℕ → ℕ → Reader ε τ α
  | _, 0 => fun a ts => (a, .ok ts)
  | i, n + 1 => andThen (r i) (loop r (i + 1) n)

/-- The reader consumes exactly the tokens `w` and takes the object from `a` to `a'`. -/
def Consumes (r : Reader ε τ α) (w : List τ) (a a' : α) : Prop :=
  ∀ rest, r a (w ++ rest) = (a', .ok rest)

variable {r r' : Reader ε τ α} {w ts rest : List τ} {a a' : α} {c c' : γ} {o : Option α}

/-- Readers run one after the other consume the concatenation. -/
lemma Consumes.andThen {w' : List τ} {a'' : α} (h : Consumes r w a a')
    (h' : Consumes r' w' a' a'') : Consumes (andThen r r') (w ++ w') a a'' := by
  intro rest
  have hfirst : r a (w ++ (w' ++ rest)) = (a', .ok (w' ++ rest)) := h (w' ++ rest)
  rw [List.append_assoc, FieldReader.andThen, hfirst]
  exact h' rest

/-- What a reader leaves, written differently. -/
lemma Consumes.trans_eq {a'' : α} (h : Consumes r w a a') (heq : a' = a'') :
    Consumes r w a a'' := heq ▸ h

variable {set : γ → α → α} {get : α → γ}

/-- Reading a field consumes what the reader of the field consumes. -/
lemma Consumes.field {r : Reader ε τ γ}
    (h : Consumes r w (get a) c) : Consumes (field get set r) w a (set c a) := by
  intro rest
  simp only [FieldReader.field, h rest]

/-- So does reading a field with another reader after it. -/
lemma Consumes.next {r : Reader ε τ γ} {w' : List τ} {a'' : α}
    (h : Consumes r w (get a) c) (h' : Consumes r' w' (set c a) a'') :
    Consumes (FieldReader.andThen (FieldReader.field get set r) r') (w ++ w') a a'' :=
  h.field.andThen h'

/-- A discarded reading consumes its tokens and leaves the object as it was. -/
lemma Consumes.discard {r : Reader ε τ γ} (h : Consumes r w c c') (a : α) :
    Consumes (discard c r) w a a := by
  intro rest
  simp only [FieldReader.discard, h rest]

/-- Changing the object consumes nothing. -/
lemma Consumes.update (f : α → α) (a : α) :
    Consumes (update f : Reader ε τ α) [] a (f a) := fun _ => rfl

/-- A branching reader consumes what the reader of the branch that is taken consumes. -/
lemma Consumes.branch {p : α → Bool} (h : p a = true → Consumes r w a a')
    (h' : p a = false → Consumes r' w a a') : Consumes (branch p r r') w a a' := by
  intro rest
  rw [FieldReader.branch]
  cases hp : p a with
  | true => exact h hp rest
  | false => exact h' hp rest

/-- A chosen reader consumes what it consumes. -/
lemma Consumes.choose {r : α → Reader ε τ α} (h : Consumes (r a) w a a') :
    Consumes (choose r) w a a' := h

/-- Going on with what was read consumes both. -/
lemma Consumes.scratch {r : Reader ε τ γ} {next : γ → Reader ε τ α} {w' : List τ}
    (h : Consumes r w c c') (h' : Consumes (next c') w' a a') :
    Consumes (scratch c r next) (w ++ w') a a' := by
  intro rest
  rw [List.append_assoc, FieldReader.scratch, h (w' ++ rest)]
  exact h' rest

/-- The rule for loops: what one round keeps holds after all of them. -/
lemma Consumes.loop {r : ℕ → Reader ε τ α} (I : ℕ → α → Prop) (ws : List (List τ)) {i : ℕ}
    (hstep : ∀ (k : ℕ) w, ws[k]? = some w → ∀ a, I (i + k) a →
      ∃ a', Consumes (r (i + k)) w a a' ∧ I (i + k + 1) a') (ha : I i a) :
    ∃ a', Consumes (loop r i ws.length) ws.flatten a a' ∧ I (i + ws.length) a' := by
  induction ws generalizing i a with
  | nil => exact ⟨a, fun rest => rfl, ha⟩
  | cons w ws ih =>
    obtain ⟨a1, hfirst, h1⟩ := hstep 0 w rfl a ha
    have hnext : ∀ (k : ℕ) w, ws[k]? = some w → ∀ a, I (i + 1 + k) a →
        ∃ a', Consumes (r (i + 1 + k)) w a a' ∧ I (i + 1 + k + 1) a' := by
      intro k w hw a hI
      have hindex : i + 1 + k = i + (k + 1) := by omega
      rw [hindex] at hI ⊢
      exact hstep (k + 1) w (by rwa [List.getElem?_cons_succ]) a hI
    obtain ⟨a2, hrest, h2⟩ := ih hnext h1
    refine ⟨a2, hfirst.andThen hrest, ?_⟩
    have hlength : i + (w :: ws).length = i + 1 + ws.length := by
      rw [List.length_cons]
      omega
    rwa [hlength]

/-- A reading that succeeds went through both readers. -/
lemma andThen_eq_ok (h : FieldReader.andThen r r' a ts = (a', .ok rest)) :
    ∃ a₁ ts₁, r a ts = (a₁, .ok ts₁) ∧ r' a₁ ts₁ = (a', .ok rest) := by
  rw [FieldReader.andThen] at h
  rcases hr : r a ts with ⟨a₁, e | ts₁⟩
  · rw [hr] at h
    cases h
  · rw [hr] at h
    exact ⟨a₁, ts₁, rfl, h⟩

/-- A reading of a field that succeeds has read the field. -/
lemma field_eq_ok {r : Reader ε τ γ} (h : FieldReader.field get set r a ts = (a', .ok rest)) :
    ∃ c, r (get a) ts = (c, .ok rest) ∧ a' = set c a := by
  rw [FieldReader.field, Prod.mk.injEq] at h
  exact ⟨(r (get a) ts).1, Prod.ext rfl h.2, h.1.symm⟩

/-- A reader that consumes a whole stream leaves nothing unread. -/
lemma Consumes.eq_of_exact (h : Consumes r w a a') : r a w = (a', .ok []) := by
  have hrest : r a (w ++ []) = (a', .ok []) := h []
  rwa [List.append_nil] at hrest

/-! ## Outcomes -/

/-- The outcome of a reader on a stream: it takes the object to what is given and stops in front of
`rest`, or it fails if nothing is given. -/
def Yields (r : Reader ε τ α) (a : α) (ts : List τ) (o : Option α) (rest : List τ) : Prop :=
  match o with
  | some a' => r a ts = (a', .ok rest)
  | none => ∃ a' e, r a ts = (a', .error e)

/-- The outcome, written differently. -/
lemma Yields.of_eq {o' : Option α} (h : Yields r a ts o rest) (heq : o = o') :
    Yields r a ts o' rest := heq ▸ h

/-- Readers run one after the other, the second one only if the first one has not failed. -/
lemma Yields.andThen {ts' : List τ} {f : α → Option α} (h : Yields r a ts o ts')
    (h' : ∀ a', o = some a' → Yields r' a' ts' (f a') rest) :
    Yields (andThen r r') a ts (o.bind f) rest := by
  cases o with
  | none =>
    obtain ⟨a', e, hfail⟩ := h
    exact ⟨a', e, by rw [FieldReader.andThen, hfail]⟩
  | some a' =>
    have hfirst : r a ts = (a', .ok ts') := h
    have hboth : FieldReader.andThen r r' a ts = r' a' ts' := by rw [FieldReader.andThen, hfirst]
    have hnext := h' a' rfl
    rw [Option.bind_some]
    unfold Yields at hnext ⊢
    rwa [hboth]

/-- Changing the object never fails. -/
lemma Yields.update (f : α → α) (a : α) (ts : List τ) :
    Yields (update f : Reader ε τ α) a ts (some (f a)) ts := rfl

lemma Yields.fail (e : ε) (a : α) (ts rest : List τ) : Yields (fail e) a ts none rest := ⟨a, e, rfl⟩

/-- Going on with what was read. -/
lemma Yields.scratch {r : Reader ε τ γ} {next : γ → Reader ε τ α} {ts' : List τ}
    (h : r c ts = (c', .ok ts')) (h' : Yields (next c') a ts' o rest) :
    Yields (scratch c r next) a ts o rest := by
  have hnext : FieldReader.scratch c r next a ts = next c' a ts' := by
    rw [FieldReader.scratch, h]
  unfold Yields at h' ⊢
  rwa [hnext]

/-- A chosen reader has its own outcome. -/
lemma Yields.choose {r : α → Reader ε τ α} (h : Yields (r a) a ts o rest) :
    Yields (choose r) a ts o rest := by
  unfold Yields at h ⊢
  exact h

/-- An object that is read by itself, and the tokens behind it. -/
def run (r : Reader ε τ γ) (c : γ) (ts : List τ) : Except ε (γ × List τ) :=
  match r c ts with
  | (c', .ok rest) => .ok (c', rest)
  | (_, .error e) => .error e

lemma run_eq_ok {r : Reader ε τ γ} : run r c ts = .ok (c', rest) ↔ r c ts = (c', .ok rest) := by
  rw [run]
  rcases hr : r c ts with ⟨c'', e | rest'⟩
  · constructor <;> intro h <;> cases h
  · constructor <;> intro h <;> cases h <;> rfl

/-- A number of objects that are read by themselves, one after the other. -/
def runMany (read : List τ → Except ε (γ × List τ)) : ℕ → List τ → Except ε (List γ × List τ)
  | 0, ts => .ok ([], ts)
  | n + 1, ts => (read ts).bind fun x => (runMany read n x.2).map fun l => (x.1 :: l.1, l.2)

/-- What holds of each object that is read holds of all of them. -/
lemma forall_of_runMany {read : List τ → Except ε (γ × List τ)} {P : γ → Prop}
    (hread : ∀ ts x rest, read ts = .ok (x, rest) → P x) {n : ℕ} {l : List γ}
    (h : runMany read n ts = .ok (l, rest)) : l.length = n ∧ ∀ x ∈ l, P x := by
  induction n generalizing l ts with
  | zero =>
    cases h
    exact ⟨rfl, fun x hx => absurd hx List.not_mem_nil⟩
  | succ n ih =>
    rw [runMany] at h
    rcases hfirst : read ts with e | ⟨x, ts'⟩
    · rw [hfirst] at h
      cases h
    · rw [hfirst, Except.bind] at h
      rcases hmany : runMany read n ts' with e | ⟨l', rest'⟩
      · rw [hmany] at h
        cases h
      · rw [hmany] at h
        cases h
        obtain ⟨hlength, hall⟩ := ih hmany
        refine ⟨congrArg (· + 1) hlength, fun y hy => ?_⟩
        rcases List.mem_cons.mp hy with rfl | hy
        · exact hread ts y ts' hfirst
        · exact hall y hy

/-- The rule for loops that go on with objects which are read by themselves. -/
lemma Yields.loop {r : ℕ → Reader ε τ α} {read : List τ → Except ε (γ × List τ)}
    {f : ℕ → γ → α → Option α} (I : ℕ → α → Prop)
    (hround : ∀ k a ts x rest, I k a → read ts = .ok (x, rest) → Yields (r k) a ts (f k x a) rest)
    (hkeep : ∀ k x a a', I k a → f k x a = some a' → I (k + 1) a') {n i : ℕ} {l : List γ}
    (ha : I i a) (h : runMany read n ts = .ok (l, rest)) :
    Yields (loop r i n) a ts ((l.zipIdx i).foldlM (fun a x => f x.2 x.1 a) a) rest := by
  induction n generalizing i a l ts with
  | zero =>
    cases h
    rfl
  | succ n ih =>
    rw [runMany] at h
    rcases hread : read ts with e | ⟨x, ts'⟩
    · rw [hread] at h
      cases h
    · rw [hread, Except.bind] at h
      rcases hmany : runMany read n ts' with e | ⟨l', rest'⟩
      · rw [hmany] at h
        cases h
      · rw [hmany] at h
        cases h
        rw [List.zipIdx_cons, List.foldlM_cons]
        exact (hround i a ts x ts' ha hread).andThen fun a' ha' =>
          ih (hkeep i x a a' ha ha') hmany

end FieldReader
