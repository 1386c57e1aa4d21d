/-
# Setka.Util.LinkedList — a circular doubly linked list.

The nodes are in a heap and point at each other by address. A ring is what the heap looks like when the
pointers of a root and of some nodes lead once around, forwards and backwards; each operation of the list
turns one ring into another.
-/
import Setka.Api.Errors
import Mathlib.Data.List.Nodup

namespace Setka.Util

open Setka.Api Function
open List (mem_cons_self mem_cons_of_mem)

/-! ## §1 Nodes and their operations -/

/-- `ListNode`: the neighbours are `None` before it is in a list, and after it was removed. -/
structure ListNode (P : Type) where
  cacheEntry : Option P
  prevNode : Option ℕ
  nextNode : Option ℕ

/-- The nodes by address. -/
abbrev ListHeap (P : Type) := ℕ → ListNode P

namespace ListHeap

variable {P : Type}

def setPrev (h : ListHeap P) (n : ℕ) (prev : Option ℕ) : ListHeap P :=
  Function.update h n { h n with prevNode := prev }

def setNext (h : ListHeap P) (n : ℕ) (next : Option ℕ) : ListHeap P :=
  Function.update h n { h n with nextNode := next }

/-- `create_root_node`. -/
def createRootNode (h : ListHeap P) (root : ℕ) : ListHeap P :=
  Function.update h root ⟨none, some root, some root⟩

/-- `_refs_remove_node_from_list`. -/
def refsRemoveNodeFromList (h : ListHeap P) (self : ℕ) : ListHeap P :=
  match (h self).prevNode, (h self).nextNode with
  | some prev, some next =>
    (((h.setNext prev (some next)).setPrev next (some prev)).setPrev self none).setNext self none
  | _, _ => h

/-- `_refs_insert_after`. -/
def refsInsertAfter (h : ListHeap P) (self node : ℕ) : Except Error (ListHeap P) :=
  match (h self).prevNode, (h self).nextNode, (h node).nextNode, (h node).prevNode with
  | none, none, some next, some _ =>
    .ok ((((h.setPrev self (some node)).setNext self (some next)).setNext node
      (some self)).setPrev next (some self))
  | _, _, _, _ => .error .assertionError

/-- `insert_after`: the new node gets the address `self`. -/
def insertAfter (h : ListHeap P) (self : ℕ) (cacheEntry : P) (node : ℕ) : Except Error (ListHeap P) :=
  refsInsertAfter (Function.update h self ⟨some cacheEntry, none, none⟩) self node

/-- `remove_from_list`. -/
def removeFromList (h : ListHeap P) (self : ℕ) : ListHeap P :=
  let h := h.refsRemoveNodeFromList self
  Function.update h self { h self with cacheEntry := none }

/-- `move_after`. -/
def moveAfter (h : ListHeap P) (self node : ℕ) : Except Error (ListHeap P) :=
  if (h self).prevNode.isSome ∧ (h self).nextNode.isSome ∧ (h node).prevNode.isSome ∧
      (h node).nextNode.isSome ∧ self ≠ node then
    refsInsertAfter (h.refsRemoveNodeFromList self) self node
  else .error .assertionError

/-! ### What the pointers are afterwards -/

@[simp] theorem nextNode_setPrev (h : ListHeap P) (n m : ℕ) (prev : Option ℕ) :
    (h.setPrev n prev m).nextNode = (h m).nextNode := by
  by_cases hm : m = n
  · simp [setPrev, hm]
  · simp [setPrev, hm]

@[simp] theorem prevNode_setPrev (h : ListHeap P) (n m : ℕ) (prev : Option ℕ) :
    (h.setPrev n prev m).prevNode = if m = n then prev else (h m).prevNode := by
  by_cases hm : m = n
  · simp [setPrev, hm]
  · simp [setPrev, hm]

@[simp] theorem cacheEntry_setPrev (h : ListHeap P) (n m : ℕ) (prev : Option ℕ) :
    (h.setPrev n prev m).cacheEntry = (h m).cacheEntry := by
  by_cases hm : m = n
  · simp [setPrev, hm]
  · simp [setPrev, hm]

@[simp] theorem nextNode_setNext (h : ListHeap P) (n m : ℕ) (next : Option ℕ) :
    (h.setNext n next m).nextNode = if m = n then next else (h m).nextNode := by
  by_cases hm : m = n
  · simp [setNext, hm]
  · simp [setNext, hm]

@[simp] theorem prevNode_setNext (h : ListHeap P) (n m : ℕ) (next : Option ℕ) :
    (h.setNext n next m).prevNode = (h m).prevNode := by
  by_cases hm : m = n
  · simp [setNext, hm]
  · simp [setNext, hm]

@[simp] theorem cacheEntry_setNext (h : ListHeap P) (n m : ℕ) (next : Option ℕ) :
    (h.setNext n next m).cacheEntry = (h m).cacheEntry := by
  by_cases hm : m = n
  · simp [setNext, hm]
  · simp [setNext, hm]

/-! ## §2 Rings -/

/-- From `a` over the nodes `l` to `b`, and back again. -/
def Path (h : ListHeap P) : ℕ → List ℕ → ℕ → Prop
  | a, [], b => (h a).nextNode = some b ∧ (h b).prevNode = some a
  | a, x :: l, b => (h a).nextNode = some x ∧ (h x).prevNode = some a ∧ Path h x l b

/-- The pointers lead from the root over `l` back to the root, and no other node has any. -/
structure Ring (h : ListHeap P) (root : ℕ) (l : List ℕ) : Prop where
  path : Path h root l root
  nodup : (root :: l).Nodup
  out : ∀ n ∉ root :: l, (h n).prevNode = none ∧ (h n).nextNode = none

variable {h h' : ListHeap P} {a b : ℕ} {l : List ℕ}

/-- A path is a matter of the forward pointers of all but its end, and the backward pointers of all but
its start. -/
theorem Path.congr (hpath : Path h a l b) (hnext : ∀ n, n = a ∨ n ∈ l → (h' n).nextNode = (h n).nextNode)
    (hprev : ∀ n, n = b ∨ n ∈ l → (h' n).prevNode = (h n).prevNode) : Path h' a l b := by
  induction l generalizing a with
  | nil =>
    obtain ⟨hab, hba⟩ := hpath
    exact ⟨(hnext a (Or.inl rfl)).trans hab, (hprev b (Or.inl rfl)).trans hba⟩
  | cons x l ih =>
    obtain ⟨hax, hxa, hrest⟩ := hpath
    refine ⟨(hnext a (Or.inl rfl)).trans hax, (hprev x (Or.inr mem_cons_self)).trans hxa, ih hrest ?_ ?_⟩
    · rintro n (rfl | hn)
      · exact hnext n (Or.inr mem_cons_self)
      · exact hnext n (Or.inr (mem_cons_of_mem x hn))
    rintro n (rfl | hn)
    · exact hprev n (Or.inl rfl)
    · exact hprev n (Or.inr (mem_cons_of_mem x hn))

/-- Where a path starts. -/
theorem Path.next (hpath : Path h a l b) : ∃ x, (h a).nextNode = some x ∧ (h x).prevNode = some a ∧
      (l = [] ∧ x = b ∨ ∃ rest, l = x :: rest ∧ Path h x rest b) := by
  cases l with
  | nil => exact ⟨b, hpath.1, hpath.2, Or.inl ⟨rfl, rfl⟩⟩
  | cons x rest => exact ⟨x, hpath.1, hpath.2.1, Or.inr ⟨rest, rfl, hpath.2.2⟩⟩

/-- Where a path ends. -/
theorem Path.prev (hpath : Path h a l b) : (h b).prevNode = some (l.getLast?.getD a) := by
  induction l generalizing a with
  | nil => exact hpath.2
  | cons x l ih =>
    rw [ih hpath.2.2, List.getLast?_cons]
    rfl

variable {l₁ l₂ : List ℕ}

theorem path_append {x : ℕ} : Path h a (l₁ ++ x :: l₂) b ↔ Path h a l₁ x ∧ Path h x l₂ b := by
  induction l₁ generalizing a with
  | nil => simp [Path, and_assoc]
  | cons y l₁ ih => simp [Path, ih, and_assoc]

/-! ### A node is taken out -/

variable {n : ℕ}

/-- A path over `n` with the neighbours of `n` pointing at each other is a path around `n`. -/
theorem Path.splice {prev next : ℕ} (h₁ : Path h a l₁ n) (h₂ : Path h n l₂ b)
    (hprevious : prev = l₁.getLast?.getD a) (hfollowing : next = l₂.head?.getD b) (ha : a ∉ l₁ ++ n :: l₂)
    (hnodup : (l₁ ++ n :: l₂).Nodup) (hb : b ∉ l₁ ++ n :: l₂) (hnext : ∀ m, m ≠ n →
      (h' m).nextNode = if m = prev then some next else (h m).nextNode) (hprev : ∀ m, m ≠ n →
      (h' m).prevNode = if m = next then some prev else (h m).prevNode) : Path h' a (l₁ ++ l₂) b := by
  induction l₁ generalizing a with
  | nil =>
    -- `a` is the one before `n`
    subst hprevious
    have han : prev ≠ n := fun heq => ha (heq ▸ mem_cons_self)
    have hbn : b ≠ n := fun heq => hb (heq ▸ mem_cons_self)
    cases l₂ with
    | nil =>
      subst hfollowing
      exact ⟨by rw [hnext prev han, if_pos rfl], by rw [hprev next hbn, if_pos rfl]⟩
    | cons x rest =>
      subst hfollowing
      obtain ⟨hnot, hrest⟩ := List.nodup_cons.mp hnodup
      have hxn : next ≠ n := fun heq => hnot (heq ▸ mem_cons_self)
      refine ⟨by rw [hnext prev han, if_pos rfl], by rw [hprev next hxn, if_pos rfl], h₂.2.2.congr ?_ ?_⟩
      · intro m hm
        have hmem : m ∈ next :: rest := List.mem_cons.mpr hm
        have hmn : m ≠ n := fun heq => hnot (heq ▸ hmem)
        have hma : m ≠ prev := fun heq => ha (heq ▸ mem_cons_of_mem n hmem)
        rw [hnext m hmn, if_neg hma]
      intro m hm
      have hmn : m ≠ n := by
        rcases hm with rfl | hm
        · exact hbn
        · exact fun heq => hnot (heq ▸ mem_cons_of_mem next hm)
      have hmx : m ≠ next := by
        rcases hm with rfl | hm
        · exact fun heq => hb (heq ▸ mem_cons_of_mem n mem_cons_self)
        · exact fun heq => (List.nodup_cons.mp hrest).1 (heq ▸ hm)
      rw [hprev m hmn, if_neg hmx]
  | cons y l₁ ih =>
    obtain ⟨hay, hya, hrest⟩ := h₁
    obtain ⟨hy, hnodup⟩ := List.nodup_cons.mp hnodup
    have hprevious : prev = l₁.getLast?.getD y := by
      rw [hprevious, List.getLast?_cons]
      rfl
    have hprevMem : prev ∈ y :: (l₁ ++ n :: l₂) := by
      rw [hprevious]
      cases hlast : l₁.getLast? with
      | none => exact mem_cons_self
      | some z =>
        exact mem_cons_of_mem y (List.mem_append_left _ (List.mem_of_getLast? hlast))
    have hany : a ≠ prev := fun heq => ha (heq ▸ hprevMem)
    have han : a ≠ n := by
      rintro rfl
      exact ha (by simp)
    have hyn : y ≠ n := by
      rintro rfl
      exact hy (by simp)
    have hyx : y ≠ next := by
      rw [hfollowing]
      cases l₂ with
      | nil =>
        rintro rfl
        exact hb mem_cons_self
      | cons x rest =>
        rintro rfl
        exact hy (by simp)
    refine ⟨by rw [hnext a han, if_neg hany, hay], by rw [hprev y hyn, if_neg hyx, hya], ?_⟩
    exact ih hrest hprevious hy hnodup (fun hmem => hb (mem_cons_of_mem y hmem))

theorem cacheEntry_refsRemoveNodeFromList (h : ListHeap P) (self m : ℕ) :
    (h.refsRemoveNodeFromList self m).cacheEntry = (h m).cacheEntry := by
  cases hprev : (h self).prevNode with
  | none => simp [refsRemoveNodeFromList, hprev]
  | some prev =>
    cases hnext : (h self).nextNode with
    | none => simp [refsRemoveNodeFromList, hprev, hnext]
    | some next => simp [refsRemoveNodeFromList, hprev, hnext]

variable {root : ℕ}

/-- **Taking a node out of a ring** leaves the ring of the others. -/
theorem Ring.refsRemove (hring : Ring h root (l₁ ++ n :: l₂)) :
    Ring (h.refsRemoveNodeFromList n) root (l₁ ++ l₂) := by
  obtain ⟨h₁, h₂⟩ := path_append.mp hring.path
  obtain ⟨hroot, hnodup⟩ := List.nodup_cons.mp hring.nodup
  obtain ⟨next, hnext, -, hfollows⟩ := h₂.next
  have hfollowing : next = l₂.head?.getD root := by
    rcases hfollows with ⟨rfl, rfl⟩ | ⟨rest, rfl, -⟩
    · rfl
    · rfl
  have hremove : h.refsRemoveNodeFromList n = (((h.setNext (l₁.getLast?.getD root) (some next)).setPrev next
        (some (l₁.getLast?.getD root))).setPrev n none).setNext n none := by
    rw [refsRemoveNodeFromList, h₁.prev, hnext]
  refine ⟨h₁.splice h₂ rfl hfollowing hroot hnodup hroot ?_ ?_, ?_, ?_⟩
  · intro m hm
    rw [hremove]
    simp [hm]
  · intro m hm
    rw [hremove]
    simp [hm]
  · refine hring.nodup.sublist ((List.Sublist.refl l₁).append ?_ |>.cons_cons root)
    exact List.sublist_cons_self n l₂
  · intro m hm
    have hprevMem : l₁.getLast?.getD root ∈ root :: (l₁ ++ l₂) := by
      cases hlast : l₁.getLast? with
      | none => exact mem_cons_self
      | some z =>
        exact mem_cons_of_mem root (List.mem_append_left _ (List.mem_of_getLast? hlast))
    have hnextMem : next ∈ root :: (l₁ ++ l₂) := by
      rw [hfollowing]
      cases l₂ with
      | nil => exact mem_cons_self
      | cons x rest => simp
    have hmprev : m ≠ l₁.getLast?.getD root := fun heq => hm (heq ▸ hprevMem)
    have hmnext : m ≠ next := fun heq => hm (heq ▸ hnextMem)
    rw [hremove]
    by_cases hmn : m = n
    · simp [hmn]
    · have hout := hring.out m (by simpa [hmn] using hm)
      simpa [hmn, hmprev, hmnext] using hout

theorem Ring.congr (hring : Ring h root l) (hprev : ∀ n, (h' n).prevNode = (h n).prevNode)
    (hnext : ∀ n, (h' n).nextNode = (h n).nextNode) : Ring h' root l := by
  refine ⟨hring.path.congr (fun n _ => hnext n) (fun n _ => hprev n), hring.nodup, ?_⟩
  intro n hn
  rw [hprev, hnext]
  exact hring.out n hn

theorem cacheEntry_removeFromList (h : ListHeap P) {self m : ℕ} (hm : m ≠ self) :
    (h.removeFromList self m).cacheEntry = (h m).cacheEntry := by
  rw [removeFromList, update_of_ne hm, cacheEntry_refsRemoveNodeFromList]

theorem Ring.removeFromList (hring : Ring h root (l₁ ++ n :: l₂)) : Ring (h.removeFromList n) root (l₁ ++ l₂) := by
  refine hring.refsRemove.congr ?_ ?_
  · intro m
    by_cases hm : m = n
    · subst hm
      simp [ListHeap.removeFromList]
    · simp [ListHeap.removeFromList, hm]
  · intro m
    by_cases hm : m = n
    · subst hm
      simp [ListHeap.removeFromList]
    · simp [ListHeap.removeFromList, hm]

/-! ### A node is put in front -/

theorem ring_createRootNode (hout : ∀ n, (h n).prevNode = none ∧
    (h n).nextNode = none) (root : ℕ) : Ring (h.createRootNode root) root [] := by
  refine ⟨?_, List.nodup_singleton root, ?_⟩
  · simp [Path, createRootNode]
  intro n hn
  have hne : n ≠ root := fun heq => hn (heq ▸ mem_cons_self)
  rw [createRootNode, update_of_ne hne]
  exact hout n

/-- **Putting a node that is in no list after the root** makes it the first of the ring. -/
theorem Ring.refsInsertAfter (hring : Ring h root l)
    (hn : n ∉ root :: l) : ∃ h', h.refsInsertAfter n root = .ok h' ∧ Ring h' root (n :: l) ∧
      ∀ m, (h' m).cacheEntry = (h m).cacheEntry := by
  obtain ⟨hprev, hnext⟩ := hring.out n hn
  obtain ⟨x, hrootNext, -, hfollows⟩ := hring.path.next
  have hnroot : n ≠ root := fun heq => hn (heq ▸ mem_cons_self)
  refine ⟨_, by simp only [ListHeap.refsInsertAfter, hprev, hnext, hrootNext, hring.path.prev]; rfl,
    ⟨⟨by simp, ?_, ?_⟩, ?_, ?_⟩, by simp⟩
  · have hxn : n ≠ x := by
      rcases hfollows with ⟨-, rfl⟩ | ⟨rest, rfl, -⟩
      · exact hnroot
      · rintro rfl
        exact hn (by simp)
    simp [hxn]
  · rcases hfollows with ⟨rfl, rfl⟩ | ⟨rest, rfl, hrest⟩
    · simp [Path, hnroot]
    · obtain ⟨hroot, hnodup⟩ := List.nodup_cons.mp hring.nodup
      refine ⟨by simp [hnroot], by simp, hrest.congr ?_ ?_⟩
      · intro m hm
        have hmem : m ∈ x :: rest := List.mem_cons.mpr hm
        have hmroot : m ≠ root := fun heq => hroot (heq ▸ hmem)
        have hmn : m ≠ n := fun heq => hn (heq ▸ mem_cons_of_mem root hmem)
        simp [hmroot, hmn]
      intro m hm
      have hmem : m ∈ root :: x :: rest := by
        rcases hm with rfl | hm
        · exact mem_cons_self
        · simp [hm]
      have hmn : m ≠ n := fun heq => hn (heq ▸ hmem)
      have hmx : m ≠ x := by
        rcases hm with rfl | hm
        · exact fun heq => hroot (heq ▸ mem_cons_self)
        · exact fun heq => (List.nodup_cons.mp hnodup).1 (heq ▸ hm)
      simp [hmn, hmx]
  · rw [(List.Perm.swap n root l).nodup_iff]
    exact List.nodup_cons.mpr ⟨hn, hring.nodup⟩
  · intro m hm
    have hmem : x ∈ root :: l := by
      rcases hfollows with ⟨-, rfl⟩ | ⟨rest, rfl, -⟩
      · exact mem_cons_self
      · simp
    have hmroot : m ≠ root := fun heq => hm (heq ▸ mem_cons_self)
    have hmn : m ≠ n := by
      rintro rfl
      exact hm (by simp)
    have hold : m ∉ root :: l := by
      intro hmem
      rcases List.mem_cons.mp hmem with rfl | hmem
      · exact hmroot rfl
      · exact hm (by simp [hmem])
    have hmx : m ≠ x := fun heq => hold (heq ▸ hmem)
    simpa [hmroot, hmn, hmx] using hring.out m hold

theorem Ring.insertAfter (hring : Ring h root l) (hn : n ∉ root :: l)
    (entry : P) : ∃ h', h.insertAfter n entry root = .ok h' ∧
      Ring h' root (n :: l) ∧
      ∀ m, (h' m).cacheEntry = if m = n then some entry else (h m).cacheEntry := by
  obtain ⟨hprev, hnext⟩ := hring.out n hn
  have hring' : Ring (update h n ⟨some entry, none, none⟩) root l := by
    refine hring.congr ?_ ?_
    · intro m
      by_cases hm : m = n
      · simp [hm, hprev]
      · simp [hm]
    · intro m
      by_cases hm : m = n
      · simp [hm, hnext]
      · simp [hm]
  obtain ⟨h', heq, hresult, hentry⟩ := hring'.refsInsertAfter hn
  refine ⟨h', heq, hresult, ?_⟩
  intro m
  rw [hentry]
  by_cases hm : m = n
  · simp [hm]
  · simp [hm]

/-- A node of the ring is moved to the front. -/
theorem Ring.moveAfter (hring : Ring h root (l₁ ++ n :: l₂)) : ∃ h', h.moveAfter n root = .ok h' ∧
      Ring h' root (n :: (l₁ ++ l₂)) ∧ ∀ m, (h' m).cacheEntry = (h m).cacheEntry := by
  obtain ⟨h₁, h₂⟩ := path_append.mp hring.path
  obtain ⟨next, hnext, -, -⟩ := h₂.next
  obtain ⟨first, hfirst, -, -⟩ := hring.path.next
  have hnroot : n ≠ root := by
    rintro rfl
    exact (List.nodup_cons.mp hring.nodup).1 (by simp)
  have hn : n ∉ root :: (l₁ ++ l₂) := by
    have hperm : (root :: (l₁ ++ n :: l₂)).Perm (n :: root :: (l₁ ++ l₂)) :=
      (List.perm_middle.cons root).trans (List.Perm.swap n root _)
    exact (List.nodup_cons.mp (hperm.nodup_iff.mp hring.nodup)).1
  obtain ⟨h', heq, hresult, hentry⟩ := hring.refsRemove.refsInsertAfter hn
  refine ⟨h', ?_, hresult, ?_⟩
  · rw [ListHeap.moveAfter, if_pos, heq]
    simp [h₁.prev, hnext, hring.path.prev, hfirst, hnroot]
  · intro m
    rw [hentry, cacheEntry_refsRemoveNodeFromList]

/-- The last node of a ring is the one before its root. -/
theorem Ring.prevNode_root (hring : Ring h root l) : (h root).prevNode = some (l.getLast?.getD root) :=
  hring.path.prev

end ListHeap

end Setka.Util
