import Mathlib

/-!
# Programs with a state, events and non-return

A call of an imperative program either returns, with a value, the events it caused and the state it
left, or it never returns: it waits for ever, or the process has ended. `Program σ ε α` is that
reading of a call, as a function of the state it starts in. The module has the monad, the inversion
of a sequence into its parts, and `Guarantee`, a relation between the states before and after a call
and the events between them which sequencing preserves, so that it need only be checked on the
primitives. `Returns` is total correctness, and `Ends` is for calls whose last step is told apart
from what comes before it.
-/

namespace CLib

/-- A program over states `σ` that causes events `ε` and returns an `α`; `none` is a call that never
returns. -/
def Program (σ ε α : Type) : Type := σ → Option (α × List ε × σ)

namespace Program

variable {σ τ ε α β : Type}

/-- Return a value and touch nothing. -/
protected def ret (a : α) : Program σ ε α := fun s => some (a, [], s)

/-- Sequencing: the second program starts in the state the first one left, and its events come
after. -/
protected def seq (p : Program σ ε α) (f : α → Program σ ε β) : Program σ ε β := fun s =>
  match p s with
  | none => none
  | some (a, e₁, t) =>
    match f a t with
    | none => none
    | some (b, e₂, u) => some (b, e₁ ++ e₂, u)

/-- Programs in the order of a `do` block. -/
instance : Monad (Program σ ε) where
  pure := Program.ret
  bind := Program.seq

/-- A value computed from the state. -/
def read (f : σ → α) : Program σ ε α := fun s => some (f s, [], s)

/-- An update of the state. -/
def modify (f : σ → σ) : Program σ ε Unit := fun s => some ((), [], f s)

/-- One event. -/
def emit (e : ε) : Program σ ε Unit := fun s => some ((), [e], s)

/-- A call that never returns. -/
def stop : Program σ ε α := fun _ => none

/-- An eventless program on a part of the state, run on the whole of it. -/
def within (get : σ → τ) (put : τ → σ → σ) (p : Program τ Empty α) : Program σ ε α := fun s =>
  match p (get s) with
  | none => none
  | some (a, _, t) => some (a, [], put t s)

/-- A call without the value that it returns. -/
def void (p : Program σ ε α) : Program σ ε Unit := fun s => (p s).map fun r => ((), r.2)

/-- A program without its events. -/
def silenced (p : Program σ ε α) : Program σ Empty α := fun s =>
  (p s).map fun r => (r.1, [], r.2.2)

@[simp] theorem pure_apply (a : α) (s : σ) : (pure a : Program σ ε α) s = some (a, [], s) := rfl

@[simp] theorem read_apply (f : σ → α) (s : σ) : (read f : Program σ ε α) s = some (f s, [], s) :=
  rfl

@[simp] theorem modify_apply (f : σ → σ) (s : σ) :
    (modify f : Program σ ε Unit) s = some ((), [], f s) := rfl

@[simp] theorem emit_apply (e : ε) (s : σ) : (emit e : Program σ ε Unit) s = some ((), [e], s) :=
  rfl

@[simp] theorem stop_apply (s : σ) : (stop : Program σ ε α) s = none := rfl

/-- A sequence runs its first part; when that returns, the second runs in the state it left. -/
theorem bind_apply (p : Program σ ε α) (f : α → Program σ ε β) (s : σ) :
    (p >>= f) s = match p s with
      | none => none
      | some (a, e₁, t) =>
        match f a t with
        | none => none
        | some (b, e₂, u) => some (b, e₁ ++ e₂, u) := rfl

/-- A sequence whose first part returns. -/
theorem bind_of_some {p : Program σ ε α} {f : α → Program σ ε β} {s t : σ} {a : α} {e₁ : List ε}
    (h : p s = some (a, e₁, t)) :
    (p >>= f) s = (f a t).map fun r => (r.1, e₁ ++ r.2.1, r.2.2) := by
  rw [bind_apply, h]
  cases hf : f a t with
  | none => simp [hf]
  | some r => simp [hf]

/-- What causes no event is only seen in its value. -/
theorem bind_of_quiet {p : Program σ ε α} {f : α → Program σ ε β} {s t : σ} {a : α}
    (h : p s = some (a, [], t)) : (p >>= f) s = f a t := by
  rw [bind_of_some h]
  simp

/-- A sequence that begins with a value goes on with it. -/
theorem ret_bind (a : α) (f : α → Program σ ε β) : (pure a : Program σ ε α) >>= f = f a := by
  funext s
  exact bind_of_quiet (pure_apply a s)

/-- Sequencing is associative. -/
theorem bind_bind {γ : Type} (p : Program σ ε α) (f : α → Program σ ε β) (g : β → Program σ ε γ) :
    (p >>= f) >>= g = p >>= fun a => f a >>= g := by
  funext s
  rw [bind_apply, bind_apply, bind_apply]
  cases p s with
  | none => rfl
  | some r =>
    obtain ⟨a, e₁, t⟩ := r
    simp only [bind_apply]
    cases f a t with
    | none => rfl
    | some r =>
      obtain ⟨b, e₂, u⟩ := r
      simp only
      cases g b u with
      | none => rfl
      | some r => simp

/-- A sequence that begins with a read goes on with the value in the state. -/
theorem read_bind_apply (f : σ → α) (k : α → Program σ ε β) (s : σ) :
    (read f >>= k) s = k (f s) s :=
  bind_of_quiet (read_apply f s)

/-- A sequence returns exactly when both parts do, and its events are theirs in order. -/
theorem bind_eq_some {p : Program σ ε α} {f : α → Program σ ε β} {s u : σ} {b : β} {e : List ε} :
    (p >>= f) s = some (b, e, u) ↔
      ∃ a e₁ t e₂, p s = some (a, e₁, t) ∧ f a t = some (b, e₂, u) ∧ e = e₁ ++ e₂ := by
  rw [bind_apply]
  constructor
  · intro h
    -- Neither part can be the one that does not return.
    cases hp : p s with
    | none => simp [hp] at h
    | some r =>
      obtain ⟨a, e₁, t⟩ := r
      cases hf : f a t with
      | none => simp [hp, hf] at h
      | some r' =>
        obtain ⟨b', e₂, u'⟩ := r'
        simp only [hp, hf, Option.some.injEq, Prod.mk.injEq] at h
        obtain ⟨rfl, rfl, rfl⟩ := h
        exact ⟨a, e₁, t, e₂, rfl, hf, rfl⟩
  · rintro ⟨a, e₁, t, e₂, hp, hf, rfl⟩
    simp [hp, hf]

/-- A sequence without events is the sequence of its parts without events. -/
theorem silenced_bind (p : Program σ ε α) (f : α → Program σ ε β) :
    silenced (p >>= f) = silenced p >>= fun a => silenced (f a) := by
  funext s
  rw [silenced, bind_apply, bind_apply, silenced]
  cases p s with
  | none => rfl
  | some r =>
    obtain ⟨a, e₁, t⟩ := r
    simp only [Option.map_some, silenced]
    cases f a t with
    | none => rfl
    | some r => rfl

/-- A call returns without its value exactly when it returns. -/
theorem void_eq_some {p : Program σ ε α} {s t : σ} {e : List ε} :
    void p s = some ((), e, t) ↔ ∃ a, p s = some (a, e, t) := by
  unfold void
  cases p s with
  | none => simp
  | some r =>
    obtain ⟨a, e', t'⟩ := r
    simp

/-- A part of the state, when the program on it returns. -/
theorem within_eq_some {get : σ → τ} {put : τ → σ → σ} {p : Program τ Empty α} {s u : σ} {a : α}
    {e : List ε} :
    (within get put p : Program σ ε α) s = some (a, e, u) ↔
      ∃ e' t, p (get s) = some (a, e', t) ∧ e = [] ∧ u = put t s := by
  unfold within
  cases p (get s) with
  | none => simp
  | some r =>
    obtain ⟨a', e', t⟩ := r
    simp only [Option.some.injEq, Prod.mk.injEq]
    constructor
    · rintro ⟨rfl, rfl, rfl⟩
      exact ⟨e', t, ⟨rfl, rfl, rfl⟩, rfl, rfl⟩
    · rintro ⟨e'', t', ⟨rfl, -, rfl⟩, rfl, rfl⟩
      exact ⟨rfl, rfl, rfl⟩

end Program

/-! ## Guarantees -/

/-- A relation between the state before, the events and the state after, which holds of doing
nothing and of one thing after another. -/
structure Guarantee (σ ε : Type) where
  /-- The relation. -/
  rel : σ → List ε → σ → Prop
  /-- It holds of a call without any effect. -/
  refl : ∀ s, rel s [] s
  /-- It is closed under sequencing. -/
  trans : ∀ {s t u e₁ e₂}, rel s e₁ t → rel t e₂ u → rel s (e₁ ++ e₂) u

namespace Guarantee

variable {σ ε γ : Type}

/-- A part of the state stays as it is. -/
def unchanged (f : σ → γ) : Guarantee σ ε where
  rel s _ t := f t = f s
  refl _ := rfl
  trans h₁ h₂ := h₂.trans h₁

/-- A family of parts of the state changes only at some indices. -/
def changes_at {ι : Type} (f : σ → ι → γ) (D : ι → Prop) : Guarantee σ ε where
  rel s _ t := ∀ i, f t i ≠ f s i → D i
  refl _ _ h := absurd rfl h
  trans := by
    intro s t u e₁ e₂ h₁ h₂ i hi
    -- A part that differs in the end was changed by the first step or by the second.
    by_cases ht : f t i = f s i
    · exact h₂ i (ht ▸ hi)
    · exact h₁ i ht

/-- Every event is of a kind. -/
def emits (P : ε → Prop) : Guarantee σ ε where
  rel _ e _ := ∀ x ∈ e, P x
  refl _ := by simp
  trans h₁ h₂ := by
    intro x hx
    rcases List.mem_append.mp hx with hx | hx
    · exact h₁ x hx
    · exact h₂ x hx

/-- Two guarantees together. -/
def both (G H : Guarantee σ ε) : Guarantee σ ε where
  rel s e t := G.rel s e t ∧ H.rel s e t
  refl s := ⟨G.refl s, H.refl s⟩
  trans h₁ h₂ := ⟨G.trans h₁.1 h₂.1, H.trans h₁.2 h₂.2⟩

/-- The events of a call that keeps the guarantee. -/
@[simp] theorem emits_rel {P : ε → Prop} {s t : σ} {e : List ε} :
    (emits P : Guarantee σ ε).rel s e t ↔ ∀ x ∈ e, P x := Iff.rfl

end Guarantee

namespace Program

variable {σ τ ε α β : Type} {G : Guarantee σ ε}

/-- Every return of `p`, from any state, satisfies the guarantee. -/
def Keeps (G : Guarantee σ ε) (p : Program σ ε α) : Prop :=
  ∀ s a e t, p s = some (a, e, t) → G.rel s e t

/-- To return a value is to do nothing. -/
theorem keeps_pure (a : α) : Keeps G (pure a : Program σ ε α) := by
  intro s b e t h
  simp only [pure_apply, Option.some.injEq, Prod.mk.injEq] at h
  obtain ⟨-, rfl, rfl⟩ := h
  exact G.refl s

/-- To read the state is to do nothing. -/
theorem keeps_read (f : σ → α) : Keeps G (read f) := by
  intro s b e t h
  simp only [read_apply, Option.some.injEq, Prod.mk.injEq] at h
  obtain ⟨-, rfl, rfl⟩ := h
  exact G.refl s

/-- A call that never returns keeps every guarantee. -/
theorem keeps_stop : Keeps G (stop : Program σ ε α) := by
  intro s b e t h
  simp at h

/-- An event that the guarantee allows. -/
theorem keeps_emit {e : ε} (h : ∀ s, G.rel s [e] s) : Keeps G (emit e) := by
  intro s b e' t hp
  simp only [emit_apply, Option.some.injEq, Prod.mk.injEq] at hp
  obtain ⟨-, rfl, rfl⟩ := hp
  exact h s

/-- An update that the guarantee allows. -/
theorem keeps_modify {f : σ → σ} (h : ∀ s, G.rel s [] (f s)) : Keeps G (modify f) := by
  intro s b e t hp
  simp only [modify_apply, Option.some.injEq, Prod.mk.injEq] at hp
  obtain ⟨-, rfl, rfl⟩ := hp
  exact h s

/-- A sequence keeps what both its parts keep. -/
theorem keeps_bind {p : Program σ ε α} {f : α → Program σ ε β} (hp : Keeps G p)
    (hf : ∀ a, Keeps G (f a)) : Keeps G (p >>= f) := by
  intro s b e u h
  obtain ⟨a, e₁, t, e₂, h₁, h₂, rfl⟩ := bind_eq_some.mp h
  exact G.trans (hp _ _ _ _ h₁) (hf a _ _ _ _ h₂)

/-- A branch keeps what both its arms keep. -/
theorem keeps_ite {c : Prop} [Decidable c] {p q : Program σ ε α} (hp : c → Keeps G p)
    (hq : ¬c → Keeps G q) : Keeps G (if c then p else q) := by
  split_ifs with h
  · exact hp h
  · exact hq h

/-- A program on a part of the state, when the guarantee allows any change of that part. -/
theorem keeps_within {get : σ → τ} {put : τ → σ → σ} (p : Program τ Empty α)
    (h : ∀ s t, G.rel s [] (put t s)) : Keeps G (within get put p : Program σ ε α) := by
  intro s a e u hp
  obtain ⟨e', t, -, rfl, rfl⟩ := within_eq_some.mp hp
  exact h s t

/-! ## Returning -/

/-- From every state of `I` the call returns, with a value and a state of `Q`. -/
def Returns (I : σ → Prop) (Q : α → σ → Prop) (p : Program σ ε α) : Prop :=
  ∀ s, I s → ∃ a e t, p s = some (a, e, t) ∧ Q a t

section Returns

variable {I : σ → Prop} {Q : α → σ → Prop} {R : β → σ → Prop}

/-- A value is returned. -/
theorem returns_pure {a : α} (h : ∀ s, I s → Q a s) : Returns I Q (pure a : Program σ ε α) :=
  fun s hs => ⟨a, [], s, rfl, h s hs⟩

/-- A read returns the value in the state. -/
theorem returns_read {f : σ → α} (h : ∀ s, I s → Q (f s) s) :
    Returns I Q (read f : Program σ ε α) :=
  fun s hs => ⟨f s, [], s, rfl, h s hs⟩

/-- An update returns. -/
theorem returns_modify {f : σ → σ} {Q : Unit → σ → Prop} (h : ∀ s, I s → Q () (f s)) :
    Returns I Q (modify f : Program σ ε Unit) :=
  fun s hs => ⟨(), [], f s, rfl, h s hs⟩

/-- An event is no reason not to return. -/
theorem returns_emit {x : ε} {Q : Unit → σ → Prop} (h : ∀ s, I s → Q () s) :
    Returns I Q (emit x : Program σ ε Unit) :=
  fun s hs => ⟨(), [x], s, rfl, h s hs⟩

/-- The rule of sequencing. -/
theorem returns_bind {p : Program σ ε α} {f : α → Program σ ε β} (hp : Returns I Q p)
    (hf : ∀ a, Returns (Q a) R (f a)) : Returns I R (p >>= f) := by
  intro s hs
  obtain ⟨a, e₁, t, h₁, ht⟩ := hp s hs
  obtain ⟨b, e₂, u, h₂, hu⟩ := hf a t ht
  exact ⟨b, e₁ ++ e₂, u, bind_eq_some.mpr ⟨a, e₁, t, e₂, h₁, h₂, rfl⟩, hu⟩

/-- A branch returns when the arm that is taken does. -/
theorem returns_ite {c : Prop} [Decidable c] {p q : Program σ ε α} (hp : c → Returns I Q p)
    (hq : ¬c → Returns I Q q) : Returns I Q (if c then p else q) := by
  split_ifs with h
  · exact hp h
  · exact hq h

end Returns

/-! ## A last step -/

/-- Every return of `p` from `s` is what the guarantee allows, and after that a last step, which the
relation `L` describes. -/
def EndsFrom (G : Guarantee σ ε) (L : α → σ → List ε → σ → Prop) (p : Program σ ε α) (s : σ) :
    Prop :=
  ∀ a e u, p s = some (a, e, u) → ∃ e₁ t e₂, G.rel s e₁ t ∧ L a t e₂ u ∧ e = e₁ ++ e₂

/-- The same from every state. -/
def Ends (G : Guarantee σ ε) (L : α → σ → List ε → σ → Prop) (p : Program σ ε α) : Prop :=
  ∀ s, EndsFrom G L p s

/-- The last step itself. -/
theorem ends_last {L : α → σ → List ε → σ → Prop} {p : Program σ ε α}
    (h : ∀ s a e t, p s = some (a, e, t) → L a s e t) : Ends G L p := by
  intro s a e u hp
  exact ⟨[], s, e, G.refl s, h s a e u hp, rfl⟩

/-- What comes before the last step keeps the guarantee. -/
theorem ends_bind {L : β → σ → List ε → σ → Prop} {p : Program σ ε α} {f : α → Program σ ε β}
    (hp : Keeps G p) (hf : ∀ a, Ends G L (f a)) : Ends G L (p >>= f) := by
  intro s b e u h
  obtain ⟨a, e₁, t, e₂, h₁, h₂, rfl⟩ := bind_eq_some.mp h
  obtain ⟨e₃, r, e₄, hr, hlast, rfl⟩ := hf a _ _ _ _ h₂
  exact ⟨e₁ ++ e₃, r, e₄, G.trans (hp _ _ _ _ h₁) hr, hlast, by simp⟩

/-- A value that is read is the value in the state at that point. -/
theorem endsFrom_read {L : β → σ → List ε → σ → Prop} {g : σ → α} {f : α → Program σ ε β} {s : σ}
    (h : EndsFrom G L (f (g s)) s) : EndsFrom G L (read g >>= f) s := by
  intro b e u hb
  obtain ⟨a, e₁, t, e₂, h₁, h₂, rfl⟩ := bind_eq_some.mp hb
  simp only [read_apply, Option.some.injEq, Prod.mk.injEq] at h₁
  obtain ⟨rfl, rfl, rfl⟩ := h₁
  exact h b e₂ u h₂

/-- An update of the state before the rest, when the guarantee allows it there. -/
theorem endsFrom_modify {L : β → σ → List ε → σ → Prop} {g : σ → σ} {f : Unit → Program σ ε β}
    {s : σ} (hg : G.rel s [] (g s)) (h : Ends G L (f ())) : EndsFrom G L (modify g >>= f) s := by
  intro b e u hb
  obtain ⟨⟨⟩, e₁, t, e₂, h₁, h₂, rfl⟩ := bind_eq_some.mp hb
  simp only [modify_apply, Option.some.injEq, Prod.mk.injEq, true_and] at h₁
  obtain ⟨rfl, rfl⟩ := h₁
  obtain ⟨e₃, r, e₄, hr, hlast, rfl⟩ := h _ _ _ _ h₂
  exact ⟨e₃, r, e₄, by simpa using G.trans hg hr, hlast, rfl⟩

/-- A branch whose arms both end with the step. -/
theorem ends_ite {c : Prop} [Decidable c] {L : α → σ → List ε → σ → Prop} {p q : Program σ ε α}
    (hp : c → Ends G L p) (hq : ¬c → Ends G L q) : Ends G L (if c then p else q) := by
  split_ifs with h
  · exact hp h
  · exact hq h

/-- The same for a branch whose arms use the proof of its condition. -/
theorem ends_dite {c : Prop} [Decidable c] {L : α → σ → List ε → σ → Prop}
    {p : c → Program σ ε α} {q : ¬c → Program σ ε α} (hp : ∀ h, Ends G L (p h))
    (hq : ∀ h, Ends G L (q h)) : Ends G L (if h : c then p h else q h) := by
  split_ifs with h
  · exact hp h
  · exact hq h

end Program

/-! ## Resources -/

/-- What the environment answers, in order, to the requests for memory, locks and files that a
program makes: granted or refused. -/
abbrev Supply := ℕ → Bool

/-- The answers that are left after `n` requests. -/
def Supply.after (supply : Supply) (n : ℕ) : Supply := fun i => supply (i + n)

/-- Programs that ask for resources and do nothing else. -/
abbrev Alloc (α : Type) := Program Supply Empty α

/-- One request. -/
def request : Alloc Bool := fun supply => some (supply 0, [], supply.after 1)

/-- The program returns whatever it is granted. -/
def Total {α : Type} (p : Alloc α) : Prop :=
  Program.Returns (fun _ => True) (fun _ _ => True) p

/-- A request is granted or refused. -/
theorem total_request : Total request :=
  fun _ _ => ⟨_, _, _, rfl, trivial⟩

/-- A value needs nothing. -/
theorem total_pure {α : Type} (a : α) : Total (pure a : Alloc α) :=
  Program.returns_pure fun _ _ => trivial

/-- A supply that grants every request. -/
def plenty : Supply := fun _ => true

@[simp] theorem request_plenty : request plenty = some (true, [], plenty) := rfl

end CLib
