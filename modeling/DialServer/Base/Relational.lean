import DialServer.Base.Program

/-!
# Two programs side by side

A relational reading of programs. `Related R V S p q` says that from states related by `R` the
programs `p` and `q` both return or both do not, that they cause the same events, that they return
values related by `V` and that they leave states related by `S`. The rules follow the structure of
the two programs, which is the same for both. With one program on both sides this is the statement
that nothing that the program does depends on what `R` leaves open.
-/

namespace CLib

namespace Program

variable {σ τ υ ε α β α' β' : Type}

/-- Two outcomes are the same up to the relations on values and states. -/
inductive Agree (V : α → β → Prop) (S : σ → τ → Prop) :
    Option (α × List ε × σ) → Option (β × List ε × τ) → Prop
  | stuck : Agree V S none none
  | returned {a b e s t} : V a b → S s t → Agree V S (some (a, e, s)) (some (b, e, t))

/-- From related states the outcomes of the two programs agree. -/
def Related (R : σ → τ → Prop) (V : α → β → Prop) (S : σ → τ → Prop) (p : Program σ ε α)
    (q : Program τ ε β) : Prop :=
  ∀ s t, R s t → Agree V S (p s) (q t)

section Rules

variable {R S T : σ → τ → Prop} {V : α → β → Prop} {U : α' → β' → Prop}

/-- Two values. -/
theorem related_pure {a : α} {b : β} (h : V a b) :
    Related R V R (pure a : Program σ ε α) (pure b) :=
  fun _ _ hst => .returned h hst

/-- Two calls that never return. -/
theorem related_stop : Related R V S (stop : Program σ ε α) stop :=
  fun _ _ _ => .stuck

/-- Two reads. -/
theorem related_read {f : σ → α} {g : τ → β} (h : ∀ s t, R s t → V (f s) (g t)) :
    Related R V R (read f : Program σ ε α) (read g) :=
  fun s t hst => .returned (h s t hst) hst

/-- Two reads whose values are used where the states are still the ones that were read. -/
theorem related_read_bind {f : σ → α} {g : τ → β} {k : α → Program σ ε α'}
    {l : β → Program τ ε β'} (h : ∀ s t, R s t → Agree U S (k (f s) s) (l (g t) t)) :
    Related R U S (read f >>= k) (read g >>= l) := by
  intro s t hst
  rw [read_bind_apply, read_bind_apply]
  exact h s t hst

/-- Two updates. -/
theorem related_modify {f : σ → σ} {g : τ → τ} (h : ∀ s t, R s t → S (f s) (g t)) :
    Related R Eq S (modify f : Program σ ε Unit) (modify g) :=
  fun s t hst => .returned rfl (h s t hst)

/-- The same event on both sides. -/
theorem related_emit (x : ε) : Related R Eq R (emit x : Program σ ε Unit) (emit x) :=
  fun _ _ hst => .returned rfl hst

/-- The rule of sequencing. -/
theorem related_bind {p : Program σ ε α} {q : Program τ ε β} {f : α → Program σ ε α'}
    {g : β → Program τ ε β'} (h : Related R V S p q)
    (hfg : ∀ a b, V a b → Related S U T (f a) (g b)) : Related R U T (p >>= f) (q >>= g) := by
  intro s t hst
  rw [bind_apply, bind_apply]
  have hpq := h s t hst
  generalize p s = r at hpq
  generalize q t = r' at hpq
  cases hpq with
  | stuck => exact .stuck
  | @returned a b e s' t' hv hs =>
    -- The second parts start from the states and the values of the first.
    have hsecond := hfg a b hv s' t' hs
    simp only
    generalize f a s' = r at hsecond
    generalize g b t' = r' at hsecond
    cases hsecond with
    | stuck => exact .stuck
    | returned hu ht => exact .returned hu ht

/-- Two branches on one condition. -/
theorem related_ite {c : Prop} [Decidable c] {p p' : Program σ ε α} {q q' : Program τ ε β}
    (h : c → Related R V S p q) (h' : ¬c → Related R V S p' q') :
    Related R V S (if c then p else p') (if c then q else q') := by
  split_ifs with hc
  · exact h hc
  · exact h' hc

/-- The same for branches that use the proof of the condition. -/
theorem related_dite {c : Prop} [Decidable c] {p : c → Program σ ε α} {p' : ¬c → Program σ ε α}
    {q : c → Program τ ε β} {q' : ¬c → Program τ ε β} (h : ∀ hc, Related R V S (p hc) (q hc))
    (h' : ∀ hc, Related R V S (p' hc) (q' hc)) :
    Related R V S (if hc : c then p hc else p' hc) (if hc : c then q hc else q' hc) := by
  split_ifs with hc
  · exact h hc
  · exact h' hc

/-- One program on a part of the states in which they do not differ. -/
theorem related_within {get : σ → υ} {put : υ → σ → σ} {get' : τ → υ} {put' : υ → τ → τ}
    (p : Program υ Empty α) (hget : ∀ s t, R s t → get s = get' t)
    (hput : ∀ s t u, R s t → S (put u s) (put' u t)) :
    Related R Eq S (within get put p : Program σ ε α) (within get' put' p) := by
  intro s t hst
  unfold within
  rw [hget s t hst]
  cases p (get' t) with
  | none => exact .stuck
  | some r => exact .returned rfl (hput s t r.2.2 hst)

/-- A stronger relation before, and a weaker one behind. -/
theorem Related.mono {R' S' : σ → τ → Prop} {p : Program σ ε α} {q : Program τ ε β}
    (h : Related R V S p q) (hR : ∀ s t, R' s t → R s t) (hS : ∀ s t, S s t → S' s t) :
    Related R' V S' p q := by
  intro s t hst
  have hpq := h s t (hR s t hst)
  generalize p s = r at hpq
  generalize q t = r' at hpq
  cases hpq with
  | stuck => exact .stuck
  | returned hv hs => exact .returned hv (hS _ _ hs)

end Rules

end Program

end CLib
