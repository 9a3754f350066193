import Libatp.Base.Word
import Mathlib.Algebra.Order.BigOperators.Group.List
import Mathlib.Data.List.Pairwise
import Mathlib.Order.Interval.Finset.Nat

/-!
# Blocks of an allocator

An allocator hands out blocks of the address space that stay apart until they are
given back. A `Heap` is what is known of it from outside: the blocks that are
out, each with a tag that says what it was asked for, and the history of what was
obtained and what was given back. Giving back an address at which no block starts
changes the history only.
-/

namespace Libatp.Base

structure Block (τ : Type) where
  addr : Nat
  size : Nat
  tag : τ
  deriving DecidableEq, Repr

namespace Block
variable {τ : Type}

def fin (b : Block τ) : Nat := b.addr + b.size

def Apart (b c : Block τ) : Prop := b.fin ≤ c.addr ∨ c.fin ≤ b.addr

/-- Not null, not empty, and its end is an address. -/
def Proper (b : Block τ) : Prop := 0 < b.addr ∧ 0 < b.size ∧ b.fin < wordSize

instance (b c : Block τ) : Decidable (b.Apart c) := inferInstanceAs (Decidable (_ ∨ _))

instance (b : Block τ) : Decidable b.Proper := inferInstanceAs (Decidable (_ ∧ _))

instance : Std.Symm (Apart : Block τ → Block τ → Prop) := ⟨fun _ _ => Or.symm⟩

def span (b : Block τ) : Finset Nat := Finset.Ico b.addr b.fin

theorem Apart.disjoint_span {b c : Block τ} (h : b.Apart c) : Disjoint b.span c.span := by
  rw [Finset.disjoint_left]
  intro x hb hc
  simp only [span, Finset.mem_Ico] at hb hc
  rcases h with h | h <;> omega

end Block

/-- If no two members share a key, dropping a key drops one member. -/
theorem perm_filter_key {α κ : Type} [DecidableEq κ] (key : α → κ) {l : List α}
    (once : (l.map key).Nodup) {a : α} (ha : a ∈ l) :
    l.Perm (a :: l.filter (fun b => key b ≠ key a)) := by
  induction l with
  | nil => cases ha
  | cons c l ih =>
    rw [List.map_cons, List.nodup_cons] at once
    have apart {b : α} (hb : b ∈ l) : key b ≠ key c := fun same =>
      once.1 (same ▸ List.mem_map_of_mem hb)
    rcases List.mem_cons.mp ha with rfl | later
    · rw [List.filter_cons_of_neg (by simp)]
      rw [List.filter_eq_self.mpr fun b hb => decide_eq_true (apart hb)]
    · rw [List.filter_cons_of_pos (by simpa using (apart later).symm)]
      exact ((ih once.2 later).cons c).trans (.swap _ _ _)

structure Heap (τ : Type) where
  outstanding : List (Block τ)
  obtained : List (Nat × Nat)
  freed : List (Nat × Nat)
  apart : outstanding.Pairwise Block.Apart
  proper : ∀ b ∈ outstanding, b.Proper

namespace Heap
variable {τ : Type}

def empty (τ : Type) : Heap τ := ⟨[], [], [], .nil, nofun⟩

def Admits (h : Heap τ) (b : Block τ) : Prop := b.Proper ∧ ∀ c ∈ h.outstanding, b.Apart c

instance (h : Heap τ) (b : Block τ) : Decidable (h.Admits b) := inferInstanceAs (Decidable (_ ∧ _))

def grant (h : Heap τ) (b : Block τ) (ok : h.Admits b) : Heap τ where
  outstanding := b :: h.outstanding
  obtained := h.obtained ++ [(b.addr, b.size)]
  freed := h.freed
  apart := List.pairwise_cons.mpr ⟨ok.2, h.apart⟩
  proper := List.forall_mem_cons.mpr ⟨ok.1, h.proper⟩

def free (h : Heap τ) (addr size : Nat) : Heap τ where
  outstanding := h.outstanding.filter (·.addr ≠ addr)
  obtained := h.obtained
  freed := h.freed ++ [(addr, size)]
  apart := h.apart.filter _
  proper b hb := h.proper b (List.mem_of_mem_filter hb)

def total (h : Heap τ) : Nat := (h.outstanding.map Block.size).sum

@[simp] theorem mem_free {h : Heap τ} {addr size : Nat} {b : Block τ} :
    b ∈ (h.free addr size).outstanding ↔ b ∈ h.outstanding ∧ b.addr ≠ addr := by
  simp [free]

/-- An address lies in one outstanding block at most. -/
theorem eq_of_overlap (h : Heap τ) {b c : Block τ} (hb : b ∈ h.outstanding)
    (hc : c ∈ h.outstanding) {x : Nat} (bx : b.addr ≤ x ∧ x < b.fin)
    (cx : c.addr ≤ x ∧ x < c.fin) : b = c := by
  by_contra different
  rcases h.apart.forall hb hc different with apart | apart <;> omega

theorem eq_of_addr (h : Heap τ) {b c : Block τ} (hb : b ∈ h.outstanding)
    (hc : c ∈ h.outstanding) (same : b.addr = c.addr) : b = c := by
  have sizes := And.intro (h.proper b hb).2.1 (h.proper c hc).2.1
  apply h.eq_of_overlap hb hc (x := b.addr) <;> unfold Block.fin <;> omega

theorem nodup_addr (h : Heap τ) : (h.outstanding.map Block.addr).Nodup := by
  rw [List.Nodup, List.pairwise_map]
  apply h.apart.imp_of_mem
  intro b c hb hc apart same
  have sizes := And.intro (h.proper b hb).2.1 (h.proper c hc).2.1
  simp only [Block.Apart, Block.fin] at apart
  omega

/-! ## History -/

def pairs (h : Heap τ) : List (Nat × Nat) := h.outstanding.map fun b => (b.addr, b.size)

/-- Everything that was given back had been obtained, with the same size, and the
rest is out. -/
def Balanced (h : Heap τ) : Prop := h.obtained.Perm (h.freed ++ h.pairs)

theorem Balanced.grant {h : Heap τ} (hh : h.Balanced) (b : Block τ) (ok : h.Admits b) :
    (h.grant b ok).Balanced := by
  calc h.obtained ++ [(b.addr, b.size)]
    _ |>.Perm ((b.addr, b.size) :: h.obtained) := List.perm_append_comm
    _ |>.Perm ((b.addr, b.size) :: (h.freed ++ h.pairs)) := List.Perm.cons _ hh
    _ |>.Perm (h.freed ++ (h.grant b ok).pairs) := List.perm_middle.symm

/-! ## Sizes -/

/-- All addresses covered by a list of blocks. -/
def cover (bs : List (Block τ)) : Finset Nat := bs.foldr (fun b covered => b.span ∪ covered) ∅

theorem mem_cover {bs : List (Block τ)} {x : Nat} : x ∈ cover bs ↔ ∃ b ∈ bs, x ∈ b.span := by
  induction bs with
  | nil => simp [cover]
  | cons b bs ih => simp only [cover, List.foldr_cons, Finset.mem_union, List.exists_mem_cons_iff,
      ← ih]

/-- Blocks that are apart add up to what they cover. -/
theorem card_cover {bs : List (Block τ)} (apart : bs.Pairwise Block.Apart) :
    (cover bs).card = (bs.map Block.size).sum := by
  induction bs with
  | nil => rfl
  | cons b bs ih =>
    rw [List.pairwise_cons] at apart
    have disjoint : Disjoint b.span (cover bs) := by
      rw [Finset.disjoint_right]
      intro x hx
      obtain ⟨c, hc, covered⟩ := mem_cover.mp hx
      exact Finset.disjoint_right.mp (apart.1 c hc).disjoint_span covered
    have own : b.span.card = b.size := by simp [Block.span, Block.fin]
    calc (cover (b :: bs)).card = (b.span ∪ cover bs).card := rfl
      _ = b.size + (cover bs).card := by rw [Finset.card_union_of_disjoint disjoint, own]
      _ = ((b :: bs).map Block.size).sum := by rw [ih apart.2, List.map_cons, List.sum_cons]

/-- What is out at one time fits in the address space. -/
theorem total_lt (h : Heap τ) : h.total < wordSize := by
  have inside : cover h.outstanding ⊆ Finset.Ico 1 wordSize := by
    intro x hx
    obtain ⟨b, hb, covered⟩ := mem_cover.mp hx
    have bounds := h.proper b hb
    simp only [Block.span, Finset.mem_Ico] at covered ⊢
    exact ⟨by have := bounds.1; omega, covered.2.trans bounds.2.2⟩
  have count := Finset.card_le_card inside
  rw [card_cover h.apart, Nat.card_Ico] at count
  have positive : 0 < wordSize := by decide
  unfold total
  omega

/-- Giving a block back takes it, and nothing else, from the list. -/
theorem perm_free (h : Heap τ) {b : Block τ} (hb : b ∈ h.outstanding) (size : Nat) :
    h.outstanding.Perm (b :: (h.free b.addr size).outstanding) :=
  perm_filter_key Block.addr h.nodup_addr hb

theorem Balanced.free {h : Heap τ} (hh : h.Balanced) {b : Block τ} (hb : b ∈ h.outstanding) :
    (h.free b.addr b.size).Balanced := by
  have left := (h.perm_free hb b.size).map fun c => (c.addr, c.size)
  unfold Balanced at hh ⊢
  have moved : (h.freed ++ h.pairs).Perm
      (h.freed ++ ((b.addr, b.size) :: (h.free b.addr b.size).pairs)) := left.append_left _
  have freed : (h.free b.addr b.size).freed = h.freed ++ [(b.addr, b.size)] := rfl
  rw [freed, List.append_assoc]
  exact hh.trans moved

theorem total_free (h : Heap τ) {b : Block τ} (hb : b ∈ h.outstanding) (size : Nat) :
    h.total = b.size + (h.free b.addr size).total := by
  unfold total
  rw [((h.perm_free hb size).map Block.size).sum_eq, List.map_cons, List.sum_cons]

end Heap

/-- Parts of a list that belong to different owners add up to no more than all
of it. -/
theorem sum_owned_le {ι β : Type} (size : β → Nat) (owns : ι → β → Bool) {owners : List ι}
    (once : owners.Nodup) {bs : List β}
    (unique : ∀ b ∈ bs, ∀ i ∈ owners, ∀ j ∈ owners, owns i b → owns j b → i = j) :
    (owners.map fun i => ((bs.filter (owns i)).map size).sum).sum ≤ (bs.map size).sum := by
  induction owners generalizing bs with
  | nil => simp
  | cons i owners ih =>
    rw [List.nodup_cons] at once
    let others := bs.filter (fun b => !owns i b)
    have rest : ∀ j ∈ owners, bs.filter (owns j) = others.filter (owns j) := by
      intro j hj
      rw [List.filter_filter]
      apply List.filter_congr
      intro b hb
      by_cases mine : owns i b <;> by_cases yours : owns j b <;> simp [mine, yours]
      have same := unique b hb i List.mem_cons_self j (List.mem_cons_of_mem _ hj) mine yours
      exact once.1 (same ▸ hj)
    have split : (bs.map size).sum =
        ((bs.filter (owns i)).map size).sum + (others.map size).sum := by
      rw [← List.sum_append, ← List.map_append]
      exact ((List.filter_append_perm (owns i) bs).map size).sum_eq.symm
    have bound : (owners.map fun j => ((others.filter (owns j)).map size).sum).sum ≤
        (others.map size).sum := by
      apply ih once.2
      intro b hb j hj k hk
      exact unique b (List.mem_of_mem_filter hb) j (List.mem_cons_of_mem _ hj) k
        (List.mem_cons_of_mem _ hk)
    have parts : (owners.map fun j => ((bs.filter (owns j)).map size).sum) =
        owners.map fun j => ((others.filter (owns j)).map size).sum := by
      apply List.map_congr_left
      intro j hj
      rw [rest j hj]
    rw [List.map_cons, List.sum_cons, parts, split]
    omega

end Libatp.Base
