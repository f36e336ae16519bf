import Mathlib.Data.List.Basic
import Mathlib.Data.List.Nodup

/-!
# Singly linked lists in a heap

A heap maps addresses to the nodes that live there, and `link` gives the address a node
points to.  `Chain link heap start nodes` says that the list starting at `start` runs
through `nodes`, in this order, and then ends.  The addresses of a chain are pairwise
different, and a chain does not change when nodes elsewhere do.  `Visits link heap start a` says
that the list comes to `a`, also when it never ends.
-/

namespace Linked

universe u v

variable {α : Type u} {ν : Type v} {link : ν → Option α} {heap heap' : α → Option ν}

/-- The list that starts at `start` runs through `nodes` and then ends. -/
def Chain (link : ν → Option α) (heap : α → Option ν) : Option α → List α → Prop
  | start, [] => start = none
  | start, a :: nodes => start = some a ∧ ∃ v, heap a = some v ∧ Chain link heap (link v) nodes

theorem Chain.head?_eq {start : Option α} {nodes : List α} (h : Chain link heap start nodes) :
  start = nodes.head?
  := by
  cases nodes with
  | nil => exact h
  | cons a nodes => exact h.1

/-- Only one list starts at a given address. -/
theorem Chain.unique :
  ∀ {nodes nodes' : List α} {start : Option α}, Chain link heap start nodes →
    Chain link heap start nodes' → nodes = nodes'
  | [], [], _, _, _ => rfl
  | [], _ :: _, _, h, h' => by
      rw [h] at h'
      cases h'.1
  | _ :: _, [], _, h, h' => by
      rw [h'] at h
      cases h.1
  | a :: nodes, a' :: nodes', _, ⟨hs, v, hv, h⟩, ⟨hs', v', hv', h'⟩ => by
      obtain rfl : a = a' := Option.some.inj (hs.symm.trans hs')
      obtain rfl : v = v' := Option.some.inj (hv.symm.trans hv')
      rw [Chain.unique h h']

/-- The nodes of a chain live in the heap, and the rest of the chain starts where a node
points to. -/
theorem Chain.split :
  ∀ {pre : List α} {start : Option α} {a : α} {post : List α},
    Chain link heap start (pre ++ a :: post) →
    ∃ v, heap a = some v ∧ Chain link heap (link v) post
  | [], _, _, _, ⟨_, h⟩ => h
  | _ :: _, _, _, _, ⟨_, _, _, h⟩ => Chain.split h

theorem Chain.live
    {start : Option α} {nodes : List α} (h : Chain link heap start nodes) {a : α}
    (ha : a ∈ nodes) :
  ∃ v, heap a = some v
  := by
  obtain ⟨pre, post, rfl⟩ := List.append_of_mem ha
  obtain ⟨v, hv, -⟩ := h.split
  use v

/-- A chain does not come back to a node. -/
theorem Chain.nodup :
  ∀ {nodes : List α} {start : Option α}, Chain link heap start nodes → nodes.Nodup
  | [], _, _ => List.nodup_nil
  | a :: nodes, _, ⟨_, v, hv, h⟩ => by
      rw [List.nodup_cons]
      constructor
      · intro ha
        obtain ⟨pre, post, rfl⟩ := List.append_of_mem ha
        obtain ⟨v', hv', h'⟩ := h.split
        obtain rfl : v = v' := Option.some.inj (hv.symm.trans hv')
        -- the list from `a` on would be as long as its own proper suffix
        have hlen := congrArg List.length (h.unique h')
        simp only [List.length_append, List.length_cons] at hlen
        omega
      · exact h.nodup

/-- A chain depends only on its nodes. -/
theorem Chain.congr :
  ∀ {nodes : List α} {start : Option α}, Chain link heap start nodes →
    (∀ a ∈ nodes, heap' a = heap a) → Chain link heap' start nodes
  | [], _, h, _ => h
  | a :: nodes, _, ⟨hs, v, hv, h⟩, heq => by
      refine ⟨hs, v, ?_, ?_⟩
      · rw [heq a List.mem_cons_self, hv]
      · apply h.congr
        intro b hb
        apply heq b (List.mem_cons_of_mem a hb)

/-- Linking the last node of a chain to a new last node. -/
theorem Chain.snoc :
  ∀ {nodes : List α} {start : Option α} {b t : α} {vb vt : ν},
    Chain link heap start (nodes ++ [b]) → (∀ a ∈ nodes, heap' a = heap a) →
    heap' b = some vb → link vb = some t → heap' t = some vt → link vt = none →
    Chain link heap' start (nodes ++ [b] ++ [t])
  | [], _, _, _, vb, vt, ⟨hs, _⟩, _, hb, hlink, ht, hnone =>
      ⟨hs, vb, hb, hlink, vt, ht, hnone⟩
  | a :: nodes, _, _, _, _, _, ⟨hs, v, hv, h⟩, heq, hb, hlink, ht, hnone => by
      refine ⟨hs, v, ?_, ?_⟩
      · rw [heq a List.mem_cons_self, hv]
      · apply h.snoc _ hb hlink ht hnone
        intro c hc
        apply heq c (List.mem_cons_of_mem a hc)

/-- A single node that points nowhere. -/
theorem chain_singleton {t : α} {v : ν} (ht : heap t = some v) (hnone : link v = none) :
  Chain link heap (some t) [t]
  := ⟨rfl, v, ht, hnone⟩

/-! ### Lists that may be cyclic -/

/-- The list that starts at `start` comes to `a`. -/
inductive Visits (link : ν → Option α) (heap : α → Option ν) (start : Option α) : α → Prop where
  | head {a : α} (h : start = some a) : Visits link heap start a
  | next {a b : α} {v : ν} (before : Visits link heap start a) (node : heap a = some v)
      (h : link v = some b) : Visits link heap start b

variable {start : Option α} {a b : α} {v : ν}

/-- What the rest of a list visits, the list visits. -/
theorem Visits.tail
    (hs : start = some a) (hv : heap a = some v) (h : Visits link heap (link v) b) :
  Visits link heap start b
  := by
  induction h with
  | head h => exact .next (.head hs) hv h
  | next _ node h ih => exact ih.next node h

/-- What a list visits depends only on the nodes that it visits. -/
theorem Visits.of_heap
    (h : Visits link heap' start a) (heq : ∀ b, Visits link heap start b → heap' b = heap b) :
  Visits link heap start a
  := by
  induction h with
  | head h => exact .head h
  | next _ node h ih => exact ih.next ((heq _ ih).symm.trans node) h

/-- A list with a new first node visits this node and what the rest visits. -/
theorem Visits.push
    {t : α} (ht : heap' t = some v) (hlink : link v = start)
    (heq : ∀ c, c ≠ t → Visits link heap start c → heap' c = heap c)
    (h : Visits link heap' (some t) b) :
  b = t ∨ Visits link heap start b
  := by
  have hsecond {v' : ν} {c : α} (hv : heap' t = some v') (hc : link v' = some c) :
      Visits link heap start c := by
    obtain rfl := Option.some.inj (ht.symm.trans hv)
    apply Visits.head (hlink.symm.trans hc)
  induction h with
  | head h =>
      left
      apply (Option.some.inj h).symm
  | @next c b v' _ node h ih =>
      right
      by_cases hc : c = t
      · subst hc
        apply hsecond node h
      · have hvisits := ih.resolve_left hc
        apply hvisits.next ((heq c hc hvisits).symm.trans node) h

/-- A list that ends visits only its nodes. -/
theorem Chain.mem_of_visits
    {nodes : List α} (h : Chain link heap start nodes) (ha : Visits link heap start a) :
  a ∈ nodes
  := by
  induction ha with
  | head hs =>
      rw [h.head?_eq] at hs
      apply List.mem_of_mem_head? hs
  | next _ node hlink ih =>
      obtain ⟨pre, post, rfl⟩ := List.append_of_mem ih
      obtain ⟨v, hv, hrest⟩ := h.split
      obtain rfl := Option.some.inj (node.symm.trans hv)
      have hhead := hrest.head?_eq
      rw [hlink] at hhead
      apply List.mem_append_right
      apply List.mem_cons_of_mem
      apply List.mem_of_mem_head? hhead.symm

end Linked
