import Mathlib

/-!
# Singly linked lists in memory

A list whose nodes have a datum and a pointer to the next node, reached from a head pointer. A `Ref`
is a place that holds a pointer: the head, or the `next` field of a node. Code that edits such a
list walks with two cursors, a pointer to the current node and the place which that pointer was read
from, and assigns to the place. `find` is that walk, `link` and `unlink` are the two assignments.
`IsList` says which list of nodes a memory holds; under it the walk finds the place of a position,
and the assignments insert and remove the node there.
-/

namespace CLib.LinkedList

/-- The head pointer and the nodes by address, each with its datum and its `next` pointer. -/
structure Memory (α : Type) where
  head : Option ℕ
  cell : ℕ → Option (α × Option ℕ)

/-- A place that holds a pointer. -/
inductive Ref
  | head
  | next (addr : ℕ)
  deriving DecidableEq, Repr

variable {α : Type}

/-- The pointer at a place; `none` when the node is not there. -/
def load (m : Memory α) : Ref → Option (Option ℕ)
  | .head => some m.head
  | .next a => (m.cell a).map Prod.snd

/-- An assignment to a place. -/
def store (m : Memory α) : Ref → Option ℕ → Memory α
  | .head, p => { m with head := p }
  | .next a, p =>
    { m with cell := Function.update m.cell a ((m.cell a).map fun node => (node.1, p)) }

/-- The walk `for (node = *ref; node != NULL; ref = &node->next, node = node->next)`, which breaks
at the first node that is wanted, and the place that it ends with. -/
def find (m : Memory α) (wanted : α → Bool) : ℕ → Ref → Option ℕ → Option Ref
  | _, ref, none => some ref
  | 0, _, some _ => none
  | fuel + 1, ref, some a =>
    match m.cell a with
    | none => none
    | some (x, q) => if wanted x then some ref else find m wanted fuel (.next a) q

/-- `node->next = *ref; *ref = node`, for a new node. -/
def link (m : Memory α) (ref : Ref) (a : ℕ) (x : α) : Option (Memory α) :=
  (load m ref).map fun q => store { m with cell := Function.update m.cell a (some (x, q)) } ref a

/-- `node = *ref; *ref = node->next; free(node)`. -/
def unlink (m : Memory α) (ref : Ref) : Option (Memory α) := do
  let a ← ← load m ref
  let node ← m.cell a
  let m := store m ref node.2
  return { m with cell := Function.update m.cell a none }

/-! ## The list that a memory holds -/

/-- From a pointer on, the memory holds these nodes. -/
def Chain (m : Memory α) : Option ℕ → List (ℕ × α) → Prop
  | p, [] => p = none
  | p, (a, x) :: nodes => p = some a ∧ ∃ q, m.cell a = some (x, q) ∧ Chain m q nodes

/-- From the head on, the memory holds these nodes, and no node is there twice. -/
structure IsList (m : Memory α) (nodes : List (ℕ × α)) : Prop where
  chain : Chain m m.head nodes
  nodup : (nodes.map Prod.fst).Nodup

/-- The place of a position: what points to the node at the position, or the last place when it is
the end of the list. -/
def place : Ref → List (ℕ × α) → ℕ → Ref
  | ref, _, 0 => ref
  | ref, [], _ + 1 => ref
  | _, (a, _) :: nodes, k + 1 => place (.next a) nodes k

/-- A place that is none of the nodes. -/
def Ref.Outside (ref : Ref) (nodes : List (ℕ × α)) : Prop :=
  ∀ a, ref = .next a → a ∉ nodes.map Prod.fst

/-- The pointer that a chain starts with. -/
theorem Chain.start {m : Memory α} {p : Option ℕ} {nodes : List (ℕ × α)} (h : Chain m p nodes) :
    p = nodes.head?.map Prod.fst := by
  cases nodes with
  | nil => exact h
  | cons node nodes => exact h.1

/-- A chain goes on behind each of its positions. -/
theorem Chain.drop {m : Memory α} {p : Option ℕ} {nodes : List (ℕ × α)} (h : Chain m p nodes)
    (k : ℕ) : Chain m ((nodes.drop k).head?.map Prod.fst) (nodes.drop k) := by
  induction k generalizing p nodes with
  | zero => exact h.start ▸ h
  | succ k ih =>
    cases nodes with
    | nil => rfl
    | cons node nodes =>
      obtain ⟨-, q, -, hrest⟩ := h
      exact ih hrest

/-- A chain is not affected by what happens to other nodes. -/
theorem Chain.frame {m m' : Memory α} {p : Option ℕ} {nodes : List (ℕ × α)}
    (h : Chain m p nodes) (hsame : ∀ a ∈ nodes.map Prod.fst, m'.cell a = m.cell a) :
    Chain m' p nodes := by
  induction nodes generalizing p with
  | nil => exact h
  | cons node nodes ih =>
    obtain ⟨a, x⟩ := node
    obtain ⟨hp, q, hcell, hrest⟩ := h
    rw [List.map_cons, List.forall_mem_cons] at hsame
    exact ⟨hp, q, by rw [hsame.1, hcell], ih hrest hsame.2⟩

/-- The walk ends at the place of the first wanted node, when it may take as many steps as there are
nodes. -/
theorem find_eq {m : Memory α} (wanted : α → Bool) {p : Option ℕ} {nodes : List (ℕ × α)}
    (h : Chain m p nodes) {fuel : ℕ} (hfuel : nodes.length ≤ fuel) (ref : Ref) :
    find m wanted fuel ref p =
      some (place ref nodes (nodes.findIdx fun node => wanted node.2)) := by
  induction nodes generalizing p fuel ref with
  | nil =>
    obtain rfl : p = none := h
    cases fuel <;> rfl
  | cons node nodes ih =>
    obtain ⟨a, x⟩ := node
    obtain ⟨rfl, q, hcell, hrest⟩ := h
    obtain ⟨fuel, rfl⟩ : ∃ n, fuel = n + 1 := ⟨fuel - 1, by simp at hfuel; omega⟩
    rw [find, hcell, List.findIdx_cons]
    by_cases hx : wanted x
    · simp [hx, place]
    · simpa [hx, place] using ih hrest (by simpa using hfuel) (.next a)

/-- The place of a position holds the pointer to the node there. -/
theorem load_place {m : Memory α} {p : Option ℕ} {nodes : List (ℕ × α)} (h : Chain m p nodes)
    {ref : Ref} (href : load m ref = some p) {k : ℕ} (hk : k ≤ nodes.length) :
    load m (place ref nodes k) = some ((nodes.drop k).head?.map Prod.fst) := by
  induction nodes generalizing p ref k with
  | nil =>
    obtain rfl : k = 0 := by simpa using hk
    rw [place, href, h.start, List.drop_zero]
  | cons node nodes ih =>
    cases k with
    | zero => rw [place, href, h.start, List.drop_zero]
    | succ k =>
      obtain ⟨a, x⟩ := node
      obtain ⟨-, q, hcell, hrest⟩ := h
      rw [place, List.drop_succ_cons]
      exact ih hrest (by simp [load, hcell]) (by simpa using hk)

/-- A place is the one that the list starts from, or a node of the list. -/
theorem place_eq (ref : Ref) (nodes : List (ℕ × α)) (k : ℕ) :
    place ref nodes k = ref ∨ ∃ a ∈ (nodes.take k).map Prod.fst, place ref nodes k = .next a := by
  induction nodes generalizing ref k with
  | nil => cases k <;> exact .inl rfl
  | cons node nodes ih =>
    cases k with
    | zero => exact .inl rfl
    | succ k =>
      obtain ⟨a, x⟩ := node
      right
      rw [List.take_succ_cons, List.map_cons]
      rcases ih (.next a) k with hplace | ⟨b, hb, hplace⟩
      · exact ⟨a, List.mem_cons_self .., hplace⟩
      · exact ⟨b, List.mem_cons_of_mem _ hb, hplace⟩

/-- An assignment to another place leaves a node. -/
theorem cell_store {m : Memory α} {ref : Ref} {a : ℕ} (h : ref ≠ .next a) (p : Option ℕ) :
    (store m ref p).cell a = m.cell a := by
  cases ref with
  | head => rfl
  | next b => exact Function.update_of_ne (fun hab => h (by rw [hab])) ..

/-- An assignment to another place leaves a pointer. -/
theorem load_store_of_ne {m : Memory α} {ref ref' : Ref} (h : ref ≠ ref') (p : Option ℕ) :
    load (store m ref p) ref' = load m ref' := by
  cases ref' with
  | head =>
    cases ref with
    | head => exact absurd rfl h
    | next a => rfl
  | next a => rw [load, load, cell_store h]

/-- The assignment to a place that exists. -/
theorem load_store {m : Memory α} {ref : Ref} {q : Option ℕ} (h : load m ref = some q)
    (p : Option ℕ) : load (store m ref p) ref = some p := by
  cases ref with
  | head => rfl
  | next a =>
    obtain ⟨node, hnode, -⟩ := Option.map_eq_some_iff.mp h
    simp [load, store, hnode]

/-- **The splice.** The assignment of the start of a second chain to the place of a position cuts
the list there and goes on with that chain. -/
theorem chain_store {m : Memory α} {p q : Option ℕ} {nodes rest : List (ℕ × α)}
    (h : Chain m p nodes) (hrest : Chain m q rest) {k : ℕ} (hk : k ≤ nodes.length)
    (hnodup : ((nodes.take k ++ rest).map Prod.fst).Nodup) {ref : Ref}
    (href : load m ref = some p) (hout : ref.Outside (nodes.take k ++ rest)) :
    ∃ p', load (store m (place ref nodes k) q) ref = some p' ∧
      Chain (store m (place ref nodes k) q) p' (nodes.take k ++ rest) := by
  induction nodes generalizing p ref k with
  | nil =>
    obtain rfl : k = 0 := by simpa using hk
    refine ⟨q, load_store href q, hrest.frame fun a ha => cell_store (fun heq => ?_) q⟩
    exact hout a heq ha
  | cons node nodes ih =>
    cases k with
    | zero =>
      refine ⟨q, load_store href q, hrest.frame fun a ha => cell_store (fun heq => ?_) q⟩
      exact hout a heq ha
    | succ k =>
      obtain ⟨a, x⟩ := node
      obtain ⟨rfl, p₁, hcell, hnodes⟩ := h
      rw [List.take_succ_cons, List.cons_append] at hnodup hout ⊢
      rw [List.map_cons, List.nodup_cons] at hnodup
      have hout' : Ref.Outside (.next a) (nodes.take k ++ rest) := by
        rintro b ⟨rfl⟩
        exact hnodup.1
      obtain ⟨p', hload, hchain⟩ :=
        ih hnodes (by simpa using hk) hnodup.2 (by simp [load, hcell]) hout'
      -- The place is not the one that the whole list starts from, which so keeps its pointer.
      have hne : place (.next a) nodes k ≠ ref := by
        rintro rfl
        rcases place_eq (.next a) nodes k with hplace | ⟨b, hb, hplace⟩
        · exact hout a hplace (List.mem_cons_self ..)
        · refine hout b hplace (List.mem_cons_of_mem _ ?_)
          rw [List.map_append, List.mem_append]
          exact .inl hb
      refine ⟨some a, ?_, rfl, p', ?_, hchain⟩
      · rw [place, load_store_of_ne hne, href]
      · -- The first node keeps its datum, whether its pointer is the one assigned or not.
        obtain ⟨node, hnode, hnext⟩ := Option.map_eq_some_iff.mp hload
        rw [place, hnode]
        have hdatum : node.1 = x := by
          by_cases hplace : place (.next a) nodes k = .next a
          · rw [hplace] at hnode
            simp only [store, Function.update_self, hcell, Option.map_some,
              Option.some.injEq] at hnode
            rw [← hnode]
          · rw [cell_store hplace, hcell, Option.some.injEq] at hnode
            rw [← hnode]
        rw [← hdatum, ← hnext]

/-- The head is none of the nodes. -/
theorem head_outside (nodes : List (ℕ × α)) : Ref.head.Outside nodes := by
  intro a h
  simp at h

/-- An insertion at a position, in two parts. -/
theorem insertIdx_eq_take_cons_drop {β : Type} {l : List β} {k : ℕ} (hk : k ≤ l.length) (b : β) :
    l.insertIdx k b = l.take k ++ b :: l.drop k := by
  induction l generalizing k with
  | nil =>
    obtain rfl : k = 0 := by simpa using hk
    rfl
  | cons c l ih =>
    cases k with
    | zero => rfl
    | succ k => rw [List.insertIdx_succ_cons, ih (by simpa using hk)]; rfl

/-- A new node linked in at the place of a position stands at that position. -/
theorem IsList.link {m : Memory α} {nodes : List (ℕ × α)} (h : IsList m nodes) {k : ℕ}
    (hk : k ≤ nodes.length) {a : ℕ} (ha : a ∉ nodes.map Prod.fst) (x : α) :
    ∃ m', LinkedList.link m (place .head nodes k) a x = some m' ∧
      IsList m' (nodes.insertIdx k (a, x)) := by
  have hload : load m (place .head nodes k) = _ := load_place h.chain rfl hk
  -- The new node takes over what follows the position.
  let m₁ : Memory α :=
    { m with cell := Function.update m.cell a (some (x, (nodes.drop k).head?.map Prod.fst)) }
  have hold : Chain m₁ m.head nodes := h.chain.frame fun b hb =>
    Function.update_of_ne (ne_of_mem_of_not_mem hb ha) ..
  have hnew : Chain m₁ (some a) ((a, x) :: nodes.drop k) :=
    ⟨rfl, _, Function.update_self .., hold.drop k⟩
  have hnodup : ((nodes.insertIdx k (a, x)).map Prod.fst).Nodup := by
    have hperm := (List.perm_insertIdx (a, x) nodes hk).map Prod.fst
    exact hperm.symm.nodup (List.nodup_cons.mpr ⟨ha, h.nodup⟩)
  rw [insertIdx_eq_take_cons_drop hk] at hnodup ⊢
  obtain ⟨p', hp', hchain⟩ := chain_store hold hnew hk hnodup rfl (head_outside _)
  refine ⟨store m₁ (place .head nodes k) (some a), ?_, ?_, hnodup⟩
  · rw [LinkedList.link, hload]
    rfl
  · rw [← Option.some.inj hp'] at hchain
    exact hchain

/-- The node at a position, unlinked from the place of the position, is gone, and no other node
is. -/
theorem IsList.unlink {m : Memory α} {nodes : List (ℕ × α)} (h : IsList m nodes) {k : ℕ}
    (hk : k < nodes.length) :
    ∃ m', LinkedList.unlink m (place .head nodes k) = some m' ∧ IsList m' (nodes.eraseIdx k) := by
  obtain ⟨⟨a, x⟩, hdrop⟩ : ∃ node, nodes.drop k = node :: nodes.drop (k + 1) :=
    ⟨nodes[k], List.drop_eq_getElem_cons hk⟩
  generalize hrest : nodes.drop (k + 1) = rest at hdrop
  have hload : load m (place .head nodes k) = _ := load_place h.chain rfl hk.le
  obtain ⟨-, q, hcell, hchain⟩ := hdrop ▸ h.chain.drop k
  rw [hdrop] at hload
  -- What remains has no node twice, and not the one that is freed.
  have herase : nodes.eraseIdx k = nodes.take k ++ rest := by
    rw [List.eraseIdx_eq_take_drop_succ, hrest]
  have hsplit : nodes = nodes.take k ++ (a, x) :: rest := by
    rw [← hdrop, List.take_append_drop]
  have hnodup := h.nodup
  rw [hsplit, List.map_append, List.map_cons, List.nodup_middle, List.nodup_cons,
    ← List.map_append] at hnodup
  obtain ⟨hfree, hnodup⟩ := hnodup
  obtain ⟨p', hp', hspliced⟩ := chain_store h.chain hchain hk.le hnodup rfl (head_outside _)
  refine ⟨{ store m (place .head nodes k) q with
      cell := Function.update (store m (place .head nodes k) q).cell a none }, ?_, ?_, ?_⟩
  · simp only [LinkedList.unlink, hload, hcell, List.head?_cons, Option.map_some,
      Option.bind_eq_bind, Option.bind_some, Option.pure_def]
  · rw [herase]
    rw [← Option.some.inj hp'] at hspliced
    exact hspliced.frame fun b hb => Function.update_of_ne (ne_of_mem_of_not_mem hb hfree) ..
  · rw [herase]
    exact hnodup

end CLib.LinkedList
