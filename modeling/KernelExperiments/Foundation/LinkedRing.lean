import Mathlib.Data.List.Nodup
import Mathlib.Logic.Function.Basic

/-!
# Doubly linked rings

A ring of nodes with a head, linked in both directions. A link leads to a node or to the head, which
is `none`. `LinkedRing.addTail` and `LinkedRing.del` change the links as a list library does: a new
node is put in front of the head, and a node is taken out by joining its two neighbours. The links
of a node that was taken out stay as they were, so that a reader who stands there can go on.

`LinkedRing.Holds ring nodes` says that the links lead from the head over `nodes` back to the head,
and backwards over the same nodes. Both operations keep it (`LinkedRing.Holds.addTail`,
`LinkedRing.Holds.del`). Turning the ring round exchanges the two directions
(`LinkedRing.Holds.reverse`), and a removal is proved in one of them.
-/

set_option autoImplicit false
set_option relaxedAutoImplicit false

namespace KernelExperiments.Foundation

variable {Node : Type*}

/-! ### Links -/

/-- The links of the nodes and of the head, in both directions. -/
structure LinkedRing (Node : Type*) where
  next : Option Node → Option Node
  prev : Option Node → Option Node

/-- A head that is linked to itself. -/
def LinkedRing.empty : LinkedRing Node := ⟨fun _ ↦ none, fun _ ↦ none⟩

/-- The ring, read in the other direction. -/
def LinkedRing.turn (ring : LinkedRing Node) : LinkedRing Node := ⟨ring.prev, ring.next⟩

/-- A new node between the last one and the head. -/
def LinkedRing.addTail [DecidableEq Node] (ring : LinkedRing Node) (new : Node) :
    LinkedRing Node where
  next := Function.update (Function.update ring.next (some new) none) (ring.prev none) (some new)
  prev := Function.update (Function.update ring.prev (some new) (ring.prev none)) none (some new)

/-- A node taken out: its neighbours are linked to each other. -/
def LinkedRing.del [DecidableEq Node] (ring : LinkedRing Node) (entry : Node) :
    LinkedRing Node where
  next := Function.update ring.next (ring.prev (some entry)) (ring.next (some entry))
  prev := Function.update ring.prev (ring.next (some entry)) (ring.prev (some entry))

/-- Following the links leads from `start` over the nodes of the path to `finish`. -/
def Leads (link : Option Node → Option Node) :
    Option Node → List Node → Option Node → Prop
  | start, [], finish => link start = finish
  | start, node :: rest, finish => link start = some node ∧ Leads link (some node) rest finish

/-- The ring goes over the nodes, in order. -/
structure LinkedRing.Holds (ring : LinkedRing Node) (nodes : List Node) : Prop where
  forward : Leads ring.next none nodes none
  backward : Leads ring.prev none nodes.reverse none
  nodup : nodes.Nodup

/-! ### Paths -/

variable {link other : Option Node → Option Node} {start finish : Option Node} {path : List Node}

theorem leads_append_cons {before after : List Node} {node : Node} :
    Leads link start (before ++ node :: after) finish ↔
      Leads link start before (some node) ∧ Leads link (some node) after finish := by
  induction before generalizing start with
  | nil => exact Iff.rfl
  | cons first rest ih =>
    rw [List.cons_append, Leads, Leads, ih]
    exact and_assoc.symm

/-- The first link of a path. -/
theorem Leads.link_start (hpath : Leads link start path finish) :
    link start = path.head?.or finish := by
  cases path with
  | nil => exact hpath
  | cons node rest => exact hpath.1

/-- A path depends on the links of its nodes, and on the link that enters it. -/
theorem Leads.transfer (hpath : Leads link start path finish) {source : Option Node}
    (hsource : other source = link start)
    (hnodes : ∀ node ∈ path, other (some node) = link (some node)) :
    Leads other source path finish := by
  induction path generalizing start source with
  | nil => exact hsource.trans hpath
  | cons node rest ih =>
    obtain ⟨hnode, hrest⟩ := List.forall_mem_cons.mp hnodes
    exact ⟨hsource.trans hpath.1, ih hpath.2 hnode hrest⟩

/-! ### Rings -/

variable {ring : LinkedRing Node} {nodes : List Node}

theorem LinkedRing.holds_empty : (LinkedRing.empty : LinkedRing Node).Holds [] :=
  ⟨rfl, rfl, List.nodup_nil⟩

/-- Turned round, the ring goes over the nodes in the other order. -/
theorem LinkedRing.Holds.reverse (hring : ring.Holds nodes) : ring.turn.Holds nodes.reverse where
  forward := hring.backward
  backward := by rw [List.reverse_reverse]; exact hring.forward
  nodup := List.nodup_reverse.mpr hring.nodup

/-- The first node of the ring. -/
theorem LinkedRing.Holds.next_head (hring : ring.Holds nodes) : ring.next none = nodes.head? := by
  rw [hring.forward.link_start, Option.or_none]

/-- The last node of the ring. -/
theorem LinkedRing.Holds.prev_head (hring : ring.Holds nodes) :
    ring.prev none = nodes.getLast? := by
  have hturned : ring.prev none = nodes.reverse.head? := hring.reverse.next_head
  rw [hturned, List.head?_reverse]

/-- The node in front of a node of the ring. -/
theorem LinkedRing.Holds.prev_entry {before after : List Node} {entry : Node}
    (hring : ring.Holds (before ++ entry :: after)) :
    ring.prev (some entry) = before.getLast? := by
  have hbackward := hring.backward
  rw [List.reverse_append, List.reverse_cons, List.append_assoc, List.singleton_append] at hbackward
  rw [(leads_append_cons.mp hbackward).2.link_start, List.head?_reverse, Option.or_none]

/-- The node behind a node of the ring. -/
theorem LinkedRing.Holds.next_entry {before after : List Node} {entry : Node}
    (hring : ring.Holds (before ++ entry :: after)) :
    ring.next (some entry) = after.head? := by
  rw [(leads_append_cons.mp hring.forward).2.link_start, Option.or_none]

/-- The links of the head and of the nodes lead to nodes of the ring. -/
theorem LinkedRing.Holds.next_mem (hring : ring.Holds nodes) {source : Option Node} {node : Node}
    (hsource : ∀ entry ∈ source, entry ∈ nodes) (hnext : ring.next source = some node) :
    node ∈ nodes := by
  cases source with
  | none => exact List.mem_of_mem_head? (hring.next_head.symm.trans hnext)
  | some entry =>
    obtain ⟨before, after, rfl⟩ := List.append_of_mem (hsource entry rfl)
    have hafter := List.mem_of_mem_head? (hring.next_entry.symm.trans hnext)
    exact List.mem_append_right _ (List.mem_cons_of_mem _ hafter)

/-- The neighbour in front of a node points to it. -/
theorem LinkedRing.Holds.next_prev (hring : ring.Holds nodes) {entry : Node}
    (hentry : entry ∈ nodes) : ring.next (ring.prev (some entry)) = some entry := by
  obtain ⟨before, after, rfl⟩ := List.append_of_mem hentry
  have hbefore := (leads_append_cons.mp hring.forward).1
  rw [hring.prev_entry]
  rcases List.eq_nil_or_concat before with rfl | ⟨others, last, rfl⟩
  · exact hbefore
  · rw [List.concat_eq_append] at hbefore ⊢
    rw [List.getLast?_concat]
    exact (leads_append_cons.mp hbefore).2

/-! ### The operations -/

variable [DecidableEq Node]

/-- A path from the head whose last link is changed leads where that link now points. -/
theorem Leads.redirect (hpath : Leads link none path finish) (hnodup : path.Nodup)
    (target : Option Node) :
    Leads (Function.update link path.getLast? target) none path target := by
  rcases List.eq_nil_or_concat path with rfl | ⟨before, last, rfl⟩
  · exact Function.update_self _ _ _
  · rw [List.concat_eq_append] at hpath hnodup ⊢
    obtain ⟨hbefore, hlast⟩ := leads_append_cons.mp hpath
    have hnew : last ∉ before := fun hmem ↦
      List.disjoint_of_nodup_append hnodup hmem List.mem_cons_self
    rw [List.getLast?_concat]
    refine leads_append_cons.mpr ⟨hbefore.transfer ?_ fun node hnode ↦ ?_, ?_⟩
    · exact Function.update_of_ne (Option.some_ne_none last).symm _ _
    · refine Function.update_of_ne (fun hsame ↦ hnew ?_) _ _
      rwa [← Option.some.inj hsame]
    · exact Function.update_self _ _ _

/-- A ring grows at its end. -/
theorem LinkedRing.Holds.addTail (hring : ring.Holds nodes) {new : Node} (hnew : new ∉ nodes) :
    (ring.addTail new).Holds (nodes ++ [new]) := by
  have hne : ∀ node ∈ nodes, some node ≠ some new :=
    fun node hnode hsame ↦ hnew (Option.some.inj hsame ▸ hnode)
  have hlast : some new ≠ nodes.getLast? :=
    fun hsame ↦ hnew (List.mem_of_getLast? hsame.symm)
  refine ⟨?_, ?_, ?_⟩
  · have hforward : Leads (Function.update ring.next (some new) none) none nodes none :=
      hring.forward.transfer (Function.update_of_ne (Option.some_ne_none new).symm _ _)
        fun node hnode ↦ Function.update_of_ne (hne node hnode) _ _
    unfold LinkedRing.addTail
    rw [hring.prev_head]
    refine leads_append_cons.mpr ⟨hforward.redirect hring.nodup _, ?_⟩
    exact (Function.update_of_ne hlast _ _).trans (Function.update_self _ _ _)
  · rw [List.reverse_append, List.reverse_singleton, List.singleton_append]
    unfold LinkedRing.addTail
    dsimp only
    refine ⟨Function.update_self _ _ _, hring.backward.transfer ?_ fun node hnode ↦ ?_⟩
    · exact (Function.update_of_ne (Option.some_ne_none new) _ _).trans (Function.update_self _ _ _)
    · have hnode := hne node (List.mem_reverse.mp hnode)
      exact (Function.update_of_ne (Option.some_ne_none node) _ _).trans
        (Function.update_of_ne hnode _ _)
  · refine List.nodup_append.mpr ⟨hring.nodup, List.nodup_singleton new, ?_⟩
    rintro node hnode other hother rfl
    exact hnew (List.mem_singleton.mp hother ▸ hnode)

/-- The links without one node lead over the others. -/
theorem LinkedRing.Holds.forward_del {before after : List Node} {entry : Node}
    (hring : ring.Holds (before ++ entry :: after)) :
    Leads (ring.del entry).next none (before ++ after) none := by
  obtain ⟨hbefore, hafter⟩ := leads_append_cons.mp hring.forward
  obtain ⟨hnodup, hnodupAfter, hdisjoint⟩ := List.nodup_append.mp hring.nodup
  unfold LinkedRing.del
  rw [hring.prev_entry, hring.next_entry]
  have hredirected := hbefore.redirect hnodup after.head?
  cases after with
  | nil => rwa [List.append_nil]
  | cons next rest =>
    have hkept : ∀ node ∈ next :: rest,
        Function.update ring.next before.getLast? (some next) (some node) =
          ring.next (some node) := by
      intro node hnode
      refine Function.update_of_ne (fun hsame ↦ ?_) _ _
      exact hdisjoint node (List.mem_of_getLast? hsame.symm) node
        (List.mem_cons_of_mem _ hnode) rfl
    obtain ⟨hnext, hrest⟩ := List.forall_mem_cons.mp hkept
    exact leads_append_cons.mpr ⟨hredirected, hafter.2.transfer hnext hrest⟩

/-- A ring without one of its nodes. -/
theorem LinkedRing.Holds.del (hring : ring.Holds nodes) {entry : Node} (hentry : entry ∈ nodes) :
    (ring.del entry).Holds (nodes.erase entry) := by
  obtain ⟨before, after, rfl⟩ := List.append_of_mem hentry
  have hnot : entry ∉ before := fun hmem ↦
    List.disjoint_of_nodup_append hring.nodup hmem List.mem_cons_self
  have herase : (before ++ entry :: after).erase entry = before ++ after := by
    rw [List.erase_append_right _ hnot, List.erase_cons_head]
  refine ⟨?_, ?_, hring.nodup.erase entry⟩
  · rw [herase]
    exact hring.forward_del
  · have hturned := hring.reverse
    rw [List.reverse_append, List.reverse_cons, List.append_assoc, List.singleton_append]
      at hturned
    rw [herase, List.reverse_append]
    exact hturned.forward_del

end KernelExperiments.Foundation
