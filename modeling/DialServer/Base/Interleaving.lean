import DialServer.Base.Program
import DialServer.Base.Transitions

/-!
# Interleavings that have a serial order

Threads on a common state, each of which makes a decision in a first section and acts on it in a
second one, while the sections of the others come in between. `Protocol` is such a family of
threads, and `Interleave` is one section of one of them. When what a thread decides depends only on
a part of the state that no section changes, an interleaving cannot be told from a serial execution,
in which each thread runs from its beginning to its end: `serializable` gives that execution, in the
order of the second sections. Only the events that a section may cause while it decides, such as
taking a lock, are not looked at.
-/

namespace CLib

/-- A program whose events carry a label. -/
def Program.labelled {σ ε ι α : Type} (i : ι) (p : Program σ ε α) : Program σ (ι × ε) α :=
  fun s => (p s).map fun r => (r.1, r.2.1.map (Prod.mk i), r.2.2)

/-- Threads of two sections, over states `σ` with events `ε`. -/
structure Protocol (σ ε ι δ : Type) where
  /-- The first section of a thread, which returns a decision. -/
  decide : ι → Program σ ε δ
  /-- The second section, which carries the decision out. -/
  act : ι → δ → Program σ ε Unit

/-- How far a thread has come. -/
inductive Stage (δ : Type)
  | fresh
  | decided (d : δ)
  | done

/-- The common state, and the threads. -/
structure Protocol.Config (σ ι δ : Type) where
  state : σ
  stage : ι → Stage δ

namespace Protocol

variable {σ ε ι δ κ : Type}

/-- Before any section. -/
def start (s : σ) : Config σ ι δ := ⟨s, fun _ => .fresh⟩

/-- Both sections of a thread, without an interruption. -/
def whole (P : Protocol σ ε ι δ) (i : ι) : Program σ ε Unit := P.decide i >>= P.act i

/-- Whole threads one after another. -/
def serial (P : Protocol σ ε ι δ) : List ι → Program σ (ι × ε) Unit
  | [] => pure ()
  | i :: order => do
    (P.whole i).labelled i
    P.serial order

/-- The events that are looked at. -/
def observed (silent : ε → Bool) (e : List (ι × ε)) : List (ι × ε) := e.filter fun x => !silent x.2

/-- A state of `I` is left by every section in `I`, with `f` of it as it was; and a decision depends
on `f` only, and is made without a trace. -/
structure Independent (P : Protocol σ ε ι δ) (I : σ → Prop) (f : σ → κ) (silent : ε → Bool) :
    Prop where
  decide : ∀ i s, I s → ∃ d e, (∀ x ∈ e, silent x = true) ∧
    ∀ t, I t → f t = f s → P.decide i t = some (d, e, t)
  act : ∀ i d s e t, I s → P.act i d s = some ((), e, t) → I t ∧ f t = f s

/-- One section of a thread. -/
inductive Interleave [DecidableEq ι] (P : Protocol σ ε ι δ) :
    Config σ ι δ → List (ι × ε) → Config σ ι δ → Prop
  | decide {c i d e s} : c.stage i = .fresh → P.decide i c.state = some (d, e, s) →
      Interleave P c (e.map (Prod.mk i)) ⟨s, Function.update c.stage i (.decided d)⟩
  | act {c i d e s} : c.stage i = .decided d → P.act i d c.state = some ((), e, s) →
      Interleave P c (e.map (Prod.mk i)) ⟨s, Function.update c.stage i .done⟩

variable {P : Protocol σ ε ι δ} {I : σ → Prop} {f : σ → κ} {silent : ε → Bool}

/-- One thread more at the end of a serial execution. -/
theorem serial_concat {order : List ι} {i : ι} {s t u : σ} {e : List (ι × ε)} {e' : List ε}
    (h : P.serial order s = some ((), e, t)) (hi : P.whole i t = some ((), e', u)) :
    P.serial (order ++ [i]) s = some ((), e ++ e'.map (Prod.mk i), u) := by
  have hlast : (P.whole i).labelled i t = some ((), e'.map (Prod.mk i), u) := by
    rw [Program.labelled, hi]
    rfl
  induction order generalizing s e with
  | nil =>
    simp only [serial, Program.pure_apply, Option.some.injEq, Prod.mk.injEq, true_and] at h
    obtain ⟨rfl, rfl⟩ := h
    rw [List.nil_append, serial, Program.bind_of_some hlast]
    simp [serial]
  | cons j order ih =>
    obtain ⟨⟨⟩, e₁, r, e₂, hfirst, hrest, rfl⟩ := Program.bind_eq_some.mp h
    rw [List.cons_append, serial, Program.bind_of_some hfirst, ih hrest]
    simp

/-- What is observed of two executions one after the other. -/
theorem observed_append (e e' : List (ι × ε)) :
    observed silent (e ++ e') = observed silent e ++ observed silent e' :=
  List.filter_append ..

/-- Nothing is observed of a decision. -/
theorem observed_silent {e : List ε} (h : ∀ x ∈ e, silent x = true) (i : ι) :
    observed silent (e.map (Prod.mk i)) = [] := by
  rw [observed, List.filter_eq_nil_iff]
  intro x hx
  obtain ⟨y, hy, rfl⟩ := List.mem_map.mp hx
  simp [h y hy]

/-- The state is in `I`, and whoever has decided would decide so again. -/
structure Sane (P : Protocol σ ε ι δ) (I : σ → Prop) (f : σ → κ) (silent : ε → Bool)
    (c : Config σ ι δ) : Prop where
  state : I c.state
  decided : ∀ i d, c.stage i = .decided d → ∃ e, (∀ x ∈ e, silent x = true) ∧
    ∀ t, I t → f t = f c.state → P.decide i t = some (d, e, t)

/-- Nobody has decided. -/
theorem sane_start {s : σ} (hs : I s) : Sane P I f silent (start s) :=
  ⟨hs, fun i d h => by cases h⟩

/-- The threads of `order` are those that a run from `c₀` to `c` has brought to their end, and the
serial execution of them leads to the same state with the same observations. -/
structure SerialRun (P : Protocol σ ε ι δ) (silent : ε → Bool) (c₀ : Config σ ι δ)
    (e : List (ι × ε)) (c : Config σ ι δ) (order : List ι) : Prop where
  nodup : order.Nodup
  not_done : ∀ i ∈ order, c₀.stage i ≠ .done
  done_iff : ∀ i, c.stage i = .done ↔ c₀.stage i = .done ∨ i ∈ order
  serial : ∃ e', P.serial order c₀.state = some ((), e', c.state) ∧
    observed silent e' = observed silent e

/-- Nothing has happened. -/
theorem SerialRun.refl (c : Config σ ι δ) : SerialRun P silent c [] c [] where
  nodup := List.nodup_nil
  not_done i h := absurd h (List.not_mem_nil)
  done_iff i := by simp
  serial := ⟨[], rfl, rfl⟩

variable [DecidableEq ι]

/-- A section of a thread keeps what is known of the state and of the decisions. -/
theorem Sane.step (hP : P.Independent I f silent) {c c' : Config σ ι δ} {e : List (ι × ε)}
    (hc : Sane P I f silent c) (h : Interleave P c e c') :
    Sane P I f silent c' ∧ f c'.state = f c.state := by
  cases h with
  | @decide i d e s hstage hdecide =>
    obtain ⟨d', e', hsilent, hagain⟩ := hP.decide i c.state hc.state
    have hsame := hagain c.state hc.state rfl
    rw [hdecide, Option.some.injEq, Prod.mk.injEq, Prod.mk.injEq] at hsame
    obtain ⟨rfl, rfl, rfl⟩ := hsame
    refine ⟨⟨hc.state, fun j d' hj => ?_⟩, rfl⟩
    by_cases hij : j = i
    · subst hij
      simp only [Function.update_self, Stage.decided.injEq] at hj
      exact hj ▸ ⟨e, hsilent, hagain⟩
    · simp only [Function.update_of_ne hij] at hj
      exact hc.decided j d' hj
  | @act i d e s hstage hact =>
    obtain ⟨hs, hf⟩ := hP.act i d c.state e s hc.state hact
    refine ⟨⟨hs, fun j d' hj => ?_⟩, hf⟩
    by_cases hij : j = i
    · subst hij
      simp only [Function.update_self, reduceCtorEq] at hj
    · simp only [Function.update_of_ne hij] at hj
      simp only [hf]
      exact hc.decided j d' hj

/-- One section more. A decision leaves the serial execution as it is; a thread that has acted comes
to its end. -/
theorem SerialRun.step (hP : P.Independent I f silent) {c₀ c c' : Config σ ι δ}
    {e e' : List (ι × ε)} {order : List ι} (hc : Sane P I f silent c)
    (hrun : SerialRun P silent c₀ e c order) (h : Interleave P c e' c') :
    ∃ order', SerialRun P silent c₀ (e ++ e') c' order' := by
  obtain ⟨hnodup, hnot, hdone, e₀, hserial, hobserved⟩ := hrun
  cases h with
  | @decide i d e' s hstage hdecide =>
    obtain ⟨d', e₁, hsilent, hagain⟩ := hP.decide i c.state hc.state
    have hsame := hagain c.state hc.state rfl
    rw [hdecide, Option.some.injEq, Prod.mk.injEq, Prod.mk.injEq] at hsame
    obtain ⟨rfl, rfl, rfl⟩ := hsame
    refine ⟨order, hnodup, hnot, fun j => ?_, e₀, hserial, ?_⟩
    · rw [← hdone j]
      by_cases hij : j = i
      · subst hij
        simp [hstage]
      · simp [Function.update_of_ne hij]
    · rw [observed_append, observed_silent hsilent, List.append_nil, hobserved]
  | @act i d e' s hstage hact =>
    -- The decision would be made here as well, so that the thread can run as a whole.
    obtain ⟨e₁, hsilent, hagain⟩ := hc.decided i d hstage
    have hwhole : P.whole i c.state = some ((), e₁ ++ e', s) := by
      rw [whole, Program.bind_of_some (hagain c.state hc.state rfl), hact]
      rfl
    have hundone : c.stage i ≠ .done := by simp [hstage]
    have hnew : ¬(c₀.stage i = .done ∨ i ∈ order) := fun h => hundone ((hdone i).mpr h)
    refine ⟨order ++ [i], ?_, fun j hj => ?_, fun j => ?_, _, serial_concat hserial hwhole, ?_⟩
    · exact List.nodup_append.mpr ⟨hnodup, List.nodup_singleton i, fun j hj k hk heq => hnew
        (.inr (List.mem_singleton.mp hk ▸ heq ▸ hj))⟩
    · rcases List.mem_append.mp hj with hj | hj
      · exact hnot j hj
      · exact List.mem_singleton.mp hj ▸ fun h => hnew (.inl h)
    · by_cases hij : j = i
      · subst hij
        simp
      · simp [hdone j, hij]
    · rw [observed_append, observed_append, List.map_append, observed_append,
        observed_silent hsilent, hobserved, List.nil_append]

/-- What is known at the end of a run. -/
theorem SerialRun.of_runs (hP : P.Independent I f silent) {c₀ c : Config σ ι δ}
    {e : List (ι × ε)} (hc₀ : Sane P I f silent c₀) (h : Runs (Interleave P) c₀ e c) :
    Sane P I f silent c ∧ ∃ order, SerialRun P silent c₀ e c order := by
  induction h with
  | refl => exact ⟨hc₀, [], .refl c₀⟩
  | tail _ hlast ih =>
    obtain ⟨hc, order, hrun⟩ := ih
    exact ⟨(hc.step hP hlast).1, hrun.step hP hc hlast⟩

/-- **Serializability.** What an interleaving has done is what whole threads do one after another,
each of the threads that have come to their end once; and a thread that had come to its end at some
point of the interleaving is there before all that had not. -/
theorem serializable (hP : P.Independent I f silent) {s : σ} (hs : I s) {c c' : Config σ ι δ}
    {e e' : List (ι × ε)} (h : Runs (Interleave P) (start s) e c)
    (h' : Runs (Interleave P) c e' c') :
    ∃ order order', (order ++ order').Nodup ∧ (∀ i, i ∈ order ↔ c.stage i = .done) ∧
      (∀ i, i ∈ order ++ order' ↔ c'.stage i = .done) ∧
      (∃ t, P.serial order s = some ((), t, c.state) ∧ observed silent t = observed silent e) ∧
      ∃ t, P.serial order' c.state = some ((), t, c'.state) ∧
        observed silent t = observed silent e' := by
  obtain ⟨hc, order, hrun⟩ := SerialRun.of_runs hP (sane_start hs) h
  obtain ⟨-, order', hrun'⟩ := SerialRun.of_runs hP hc h'
  have hmem (i : ι) : i ∈ order ↔ c.stage i = .done := by
    rw [hrun.done_iff i]
    simp [start]
  refine ⟨order, order', ?_, hmem, fun i => ?_, hrun.serial, hrun'.serial⟩
  · exact List.nodup_append.mpr ⟨hrun.nodup, hrun'.nodup, fun i hi j hj heq =>
      hrun'.not_done j hj (heq ▸ (hmem i).mp hi)⟩
  · rw [List.mem_append, hrun'.done_iff i, hmem i]

end Protocol

end CLib
