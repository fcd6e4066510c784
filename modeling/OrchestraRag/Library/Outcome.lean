import Mathlib.Data.List.Basic

/-!
# Outcomes of calls

A call returns a value, returns an error, or panics.  `Outcome` is a monad in which an
error and a panic both end the computation.  A call that panics under a `Mutex` poisons it.
-/

universe u

/-- Why a call returns no value: it returns an error, or it panics. -/
inductive Failure (ε : Type u) where
  | err (error : ε)
  | panicked
  deriving DecidableEq

/-- How a call ends. -/
abbrev Outcome (ε α : Type u) : Type u :=
  Except (Failure ε) α

namespace Outcome

variable {ε ε' α β : Type u}

/-- The outcome with its error, if any, changed. -/
def mapErr (f : ε → ε') : Outcome ε α → Outcome ε' α
  | .ok a => .ok a
  | .error (.err e) => .error (.err (f e))
  | .error .panicked => .error .panicked

/-- The outcome of a call that does not panic. -/
def ofResult : Except ε α → Outcome ε α
  | .ok a => .ok a
  | .error e => .error (.err e)

/-- The call ended by a panic. -/
def Panicked (o : Outcome ε α) : Prop :=
  o = .error .panicked

def isPanicked : Outcome ε α → Bool
  | .error .panicked => true
  | _ => false

theorem isPanicked_iff {o : Outcome ε α} :
  o.isPanicked = true ↔ o.Panicked
  := by
  rcases o with (e | _) | a
  · simp [isPanicked, Panicked]
  · simp [isPanicked, Panicked]
  · simp [isPanicked, Panicked]

@[simp]
theorem isPanicked_mapErr (f : ε → ε') (o : Outcome ε α) :
  (o.mapErr f).isPanicked = o.isPanicked
  := by
  rcases o with (e | _) | a
  · rfl
  · rfl
  · rfl

/-- Mapping the value of an outcome fails only as the outcome does. -/
theorem error_of_map_eq {e : Failure ε} {x : Outcome ε α} {f : α → β}
    (h : Except.error e = x.map f) :
  x = .error e
  := by
  rcases x with e' | a
  · cases h
    rfl
  · cases h

/-- A computation succeeds when its first part does and the rest does on every value. -/
theorem exists_ok_bind {x : Outcome ε α} {f : α → Outcome ε β} {P : β → Prop}
    (hx : ∃ a, x = .ok a) (hf : ∀ a, ∃ b, f a = .ok b ∧ P b) :
  ∃ b, x >>= f = .ok b ∧ P b
  := by
  obtain ⟨a, rfl⟩ := hx
  apply hf a

/-- Filtering succeeds when it succeeds on every element. -/
theorem filterMapM_ok {f : α → Outcome ε (Option β)} {as : List α}
    (h : ∀ a ∈ as, ∃ b, f a = .ok b) :
  ∃ bs, as.filterMapM f = .ok bs
  := by
  induction as with
  | nil => exact ⟨[], rfl⟩
  | cons a as ih =>
      obtain ⟨b, hb⟩ := h a List.mem_cons_self
      obtain ⟨bs, hbs⟩ := ih (fun a ha => h a (List.mem_cons_of_mem _ ha))
      rw [List.filterMapM_cons, hb, hbs]
      cases b with
      | none => exact ⟨bs, rfl⟩
      | some b => exact ⟨b :: bs, rfl⟩

/-- A loop that selects the elements of `p` and changes them. -/
theorem filterMapM_eq {f : α → Outcome ε (Option β)} {p : α → Bool} {g : α → β} {as : List α}
    (h : ∀ a ∈ as, f a = .ok (if p a then some (g a) else none)) :
  as.filterMapM f = .ok ((as.filter p).map g)
  := by
  induction as with
  | nil => rfl
  | cons a as ih =>
      rw [List.filterMapM_cons, h a List.mem_cons_self,
        ih (fun a ha => h a (List.mem_cons_of_mem _ ha))]
      cases hp : p a with
      | false =>
          rw [List.filter_cons_of_neg (by simp [hp])]
          rfl
      | true =>
          rw [List.filter_cons_of_pos hp]
          rfl

/-- A loop that skips the elements before an index is one over the others. -/
theorem filterMapM_skip (f : α → Outcome ε (Option β)) (n : ℕ) (as : List α) (start : ℕ) :
  (as.zipIdx start).filterMapM (fun x => if x.2 < n then pure none else f x.1)
    = (as.drop (n - start)).filterMapM f
  := by
  induction as generalizing start with
  | nil =>
      rw [List.drop_nil]
      rfl
  | cons a as ih =>
      rw [List.zipIdx_cons, List.filterMapM_cons, ih]
      by_cases hskip : start < n
      · obtain ⟨k, hk⟩ : ∃ k, n - start = k + 1 := ⟨n - start - 1, by omega⟩
        have hnext : n - (start + 1) = k := by omega
        rw [if_pos hskip, hk, hnext, List.drop_succ_cons]
        rfl
      · have hzero : n - start = 0 := by omega
        have hnext : n - (start + 1) = 0 := by omega
        rw [if_neg hskip, hzero, hnext, List.drop_zero, List.drop_zero, List.filterMapM_cons]

/-- A loop over indices whose results are changed, as a loop that does not read them. -/
theorem filterMapM_zipIdx {γ : Type u} {f : α × ℕ → Outcome ε (Option β)}
    {g : α → Outcome ε (Option γ)} {e : β → γ} {as : List α} {start : ℕ}
    (h : ∀ a ∈ as, ∀ i, Option.map e <$> f (a, i) = g a) :
  List.map e <$> (as.zipIdx start).filterMapM f = as.filterMapM g
  := by
  induction as generalizing start with
  | nil => rfl
  | cons a as ih =>
      rw [List.zipIdx_cons, List.filterMapM_cons, List.filterMapM_cons, ← h a List.mem_cons_self,
        ← ih (fun a ha => h a (List.mem_cons_of_mem _ ha)), map_bind, bind_map_left]
      congr 1
      funext b
      cases b with
      | none => rfl
      | some b =>
          dsimp only [Option.map_some]
          rw [map_bind, bind_map_left]
          rfl

/-- A computation whose error is changed returns what it returns. -/
theorem of_mapError_eq_ok {ε ε' α : Type u} {x : Except ε α} {f : ε → ε'} {a : α}
    (h : x.mapError f = .ok a) :
  x = .ok a
  := by
  rcases x with e | b
  · cases h
  · cases h
    rfl

/-- What a computation returns is what its rest returns on the value of its first part. -/
theorem bind_eq_ok {ε α β : Type u} {x : Except ε α} {f : α → Except ε β} {b : β} :
  x >>= f = .ok b ↔ ∃ a, x = .ok a ∧ f a = .ok b
  := by
  rcases x with e | a
  · constructor
    · intro h
      cases h
    · rintro ⟨a, ⟨⟩, -⟩
  · constructor
    · intro h
      exact ⟨a, rfl, h⟩
    · rintro ⟨a', ⟨⟩, h⟩
      apply h

theorem toOption_join_eq_some {ε : Type*} {x : Except ε (Option α)} {a : α} :
  x.toOption.join = some a ↔ x = .ok (some a)
  := by
  rcases x with e | a'
  · constructor
    · rintro ⟨⟩
    · rintro ⟨⟩
  · constructor
    · intro h
      cases a' with
      | none => cases h
      | some a' => rw [← h]; rfl
    · rintro ⟨⟩
      rfl

/-- What a filter that may fail selects. -/
theorem eq_filterMap_of_filterMapM {f : α → Outcome ε (Option β)} {as : List α}
    {bs : List β} (h : as.filterMapM f = .ok bs) :
  bs = as.filterMap (fun a => (f a).toOption.join)
  := by
  induction as generalizing bs with
  | nil =>
      cases h
      rfl
  | cons a as ih =>
      rw [List.filterMapM_cons] at h
      obtain ⟨b, hb, h⟩ := bind_eq_ok.mp h
      rw [List.filterMap_cons, hb]
      cases b with
      | none => apply ih h
      | some b =>
          obtain ⟨bs', hbs, ⟨⟩⟩ := bind_eq_ok.mp h
          rw [← ih hbs]
          rfl

/-- Where a result of a map comes from. -/
theorem of_mem_mapM {ε α β : Type u} {f : α → Except ε β} {as : List α} {bs : List β}
    (h : as.mapM f = .ok bs) {b : β} (hb : b ∈ bs) :
  ∃ a ∈ as, f a = .ok b
  := by
  induction as generalizing bs with
  | nil =>
      cases h
      cases hb
  | cons a as ih =>
      rw [List.mapM_cons, bind_eq_ok] at h
      obtain ⟨b', ha, h⟩ := h
      obtain ⟨bs', has, ⟨⟩⟩ := bind_eq_ok.mp h
      rcases List.mem_cons.mp hb with rfl | hb
      · exact ⟨a, List.mem_cons_self, ha⟩
      · obtain ⟨a', ha', hf⟩ := ih has hb
        exact ⟨a', List.mem_cons_of_mem a ha', hf⟩

/-- A map that succeeds keeps what every step keeps. -/
theorem map_eq_of_mapM {ε α β : Type u} {γ : Type*} {f : α → Except ε β} {g : α → γ} {g' : β → γ}
    (hf : ∀ a b, f a = .ok b → g' b = g a) {as : List α} {bs : List β} (h : as.mapM f = .ok bs) :
  bs.map g' = as.map g
  := by
  induction as generalizing bs with
  | nil =>
      cases h
      rfl
  | cons a as ih =>
      rw [List.mapM_cons] at h
      obtain ⟨b, hb, hrest⟩ := bind_eq_ok.mp h
      obtain ⟨bs', hbs', hcons⟩ := bind_eq_ok.mp hrest
      cases hcons
      rw [List.map_cons, List.map_cons, hf a b hb, ih hbs']

/-- A map that fails on no element returns a value for each. -/
theorem exists_mapM {ε α β : Type u} {f : α → Except ε β} {P : α → β → Prop} {as : List α}
    (h : ∀ a ∈ as, ∃ b, f a = .ok b ∧ P a b) :
  ∃ bs, as.mapM f = .ok bs ∧ List.Forall₂ P as bs
  := by
  induction as with
  | nil => exact ⟨[], rfl, List.Forall₂.nil⟩
  | cons a as ih =>
      rw [List.forall_mem_cons] at h
      obtain ⟨⟨b, hb, hP⟩, h⟩ := h
      obtain ⟨bs, hbs, hall⟩ := ih h
      use b :: bs
      rw [List.mapM_cons, hb, bind_eq_ok]
      exact ⟨⟨b, rfl, bind_eq_ok.mpr ⟨bs, hbs, rfl⟩⟩, List.Forall₂.cons hP hall⟩

/-- A map that may fail returns what it maps all elements to. -/
theorem mapM_eq_ok_iff {ε α β : Type u} {f : α → Except ε β} {as : List α} {bs : List β} :
  as.mapM f = .ok bs ↔ (∀ a ∈ as, ((f a).toOption).isSome)
    ∧ bs = as.filterMap (fun a => (f a).toOption)
  := by
  induction as generalizing bs with
  | nil =>
      constructor
      · rintro ⟨⟩
        exact ⟨by simp, rfl⟩
      · rintro ⟨-, rfl⟩
        rfl
  | cons a as ih =>
      rw [List.mapM_cons, bind_eq_ok, List.forall_mem_cons, List.filterMap_cons]
      cases hf : f a with
      | error e =>
          constructor
          · rintro ⟨b, ⟨⟩, -⟩
          · rintro ⟨⟨hsome, -⟩, -⟩
            cases hsome
      | ok b =>
          constructor
          · rintro ⟨b', ⟨⟩, hrest⟩
            obtain ⟨bs', hmap, ⟨⟩⟩ := bind_eq_ok.mp hrest
            obtain ⟨hall, rfl⟩ := ih.mp hmap
            exact ⟨⟨rfl, hall⟩, rfl⟩
          · rintro ⟨⟨-, hall⟩, rfl⟩
            use b, rfl
            apply bind_eq_ok.mpr
            exact ⟨_, ih.mpr ⟨hall, rfl⟩, rfl⟩

/-! ### Computations that do not panic -/

theorem not_panicked_ofResult (x : Except ε α) :
  ¬ (ofResult x).Panicked
  := by
  rcases x with e | a
  · rintro ⟨⟩
  · rintro ⟨⟩

theorem not_panicked_bind {x : Outcome ε α} {f : α → Outcome ε β} (hx : ¬ x.Panicked)
    (hf : ∀ a, x = .ok a → ¬ (f a).Panicked) :
  ¬ (x >>= f).Panicked
  := by
  rcases x with (e | _) | a
  · rintro ⟨⟩
  · apply absurd rfl hx
  · apply hf a rfl

theorem not_panicked_mapM {f : α → Outcome ε β} {as : List α} (h : ∀ a ∈ as, ¬ (f a).Panicked) :
  ¬ Panicked (as.mapM f)
  := by
  induction as with
  | nil => rintro ⟨⟩
  | cons a as ih =>
      rw [List.mapM_cons]
      apply not_panicked_bind (h a List.mem_cons_self)
      intro b _
      apply not_panicked_bind (ih (fun a ha => h a (List.mem_cons_of_mem _ ha)))
      rintro bs _ ⟨⟩

theorem not_panicked_filterMapM {f : α → Outcome ε (Option β)} {as : List α}
    (h : ∀ a ∈ as, ¬ (f a).Panicked) :
  ¬ Panicked (as.filterMapM f)
  := by
  induction as with
  | nil => rintro ⟨⟩
  | cons a as ih =>
      rw [List.filterMapM_cons]
      apply not_panicked_bind (h a List.mem_cons_self)
      have hrest := ih (fun a ha => h a (List.mem_cons_of_mem _ ha))
      rintro (_ | b) _
      · apply hrest
      · apply not_panicked_bind hrest
        rintro bs _ ⟨⟩

/-! ### Computations that succeed or panic -/

/-- The call succeeds when `P` holds and panics when it does not. -/
structure OkIff (o : Outcome ε α) (P : Prop) : Prop where
  ok : P → ∃ a, o = .ok a
  panicked : ¬ P → o = .error .panicked

theorem OkIff.pure (a : α) :
  OkIff (.ok a : Outcome ε α) True
  := by
  constructor
  · intro _
    exact ⟨a, rfl⟩
  · intro h
    apply absurd trivial h

theorem OkIff.bind {x : Outcome ε α} {f : α → Outcome ε β} {P Q : Prop} (hx : OkIff x P)
    (hf : ∀ a, x = .ok a → OkIff (f a) Q) :
  OkIff (x >>= f) (P ∧ Q)
  := by
  by_cases hP : P
  · obtain ⟨a, ha⟩ := hx.ok hP
    have hfa := hf a ha
    rw [ha]
    constructor
    · intro h
      apply hfa.ok h.2
    · intro h
      apply hfa.panicked
      intro hQ
      apply h ⟨hP, hQ⟩
  · constructor
    · intro h
      apply absurd h.1 hP
    · intro _
      rw [hx.panicked hP]
      rfl

theorem OkIff.congr {o : Outcome ε α} {P Q : Prop} (h : OkIff o P) (hPQ : P ↔ Q) :
  OkIff o Q
  := by
  rw [← propext hPQ]
  apply h

theorem OkIff.panicked_iff {o : Outcome ε α} {P : Prop} (h : OkIff o P) :
  o.Panicked ↔ ¬ P
  := by
  constructor
  · intro hpanicked hP
    obtain ⟨a, rfl⟩ := h.ok hP
    cases hpanicked
  · apply h.panicked

end Outcome

/-! ### Mutexes -/

/-- A value behind a mutex. -/
structure Mutex (σ : Type*) where
  value : σ
  poisoned : Bool

namespace Mutex

variable {ε α : Type u} {σ : Type*}

def new (value : σ) : Mutex σ :=
  ⟨value, false⟩

/-- Run a call under the mutex: a panic poisons it, and a poisoned one answers `poison`. -/
def withLock (poison : ε) (f : σ → Outcome ε α × σ) (m : Mutex σ) : Outcome ε α × Mutex σ :=
  if m.poisoned then (.error (.err poison), m)
  else
    let (x, value) := f m.value
    (x, ⟨value, x.isPanicked⟩)

theorem withLock_of_not_poisoned {m : Mutex σ} (h : m.poisoned = false) (poison : ε)
    (f : σ → Outcome ε α × σ) :
  m.withLock poison f = ((f m.value).1, ⟨(f m.value).2, (f m.value).1.isPanicked⟩)
  := by
  rw [withLock, if_neg (by simp [h])]

end Mutex
