import Libatp.Base.Memory
import Libatp.Base.System
import Mathlib.Data.List.Nodup

/-!
# A table whose removals travel as messages

Members join under a key of their own and are entered in a table. A member that
leaves is taken out at once, or a message to that effect is queued, any number of
times. Whatever the delays, a member is missing from the table only after it left,
and one that left is missing or has a message on its way.
-/

namespace Libatp.Base

/-- `members` has the key of everyone who ever joined and whether they left; a member
is known by its place in that list. -/
structure Registry (Key : Type) where
  members : List (Key × Bool)
  table : List (Key × Nat)
  removals : List Nat

namespace Registry

variable {Key : Type} [DecidableEq Key]

/-- Insertion into a map, which keeps an entry that is there. -/
def insertNew (table : List (Key × Nat)) (key : Key) (i : Nat) : List (Key × Nat) :=
  if key ∈ table.map Prod.fst then table else (key, i) :: table

def eraseKey (table : List (Key × Nat)) (key : Key) : List (Key × Nat) :=
  table.filter fun entry => entry.1 ≠ key

omit [DecidableEq Key] in
theorem mem_keys {table : List (Key × Nat)} {key : Key} :
    key ∈ table.map Prod.fst ↔ ∃ i, (key, i) ∈ table := by
  simp

theorem mem_eraseKey {table : List (Key × Nat)} {key key' : Key} {i : Nat} :
    (key', i) ∈ eraseKey table key ↔ (key', i) ∈ table ∧ key' ≠ key := by
  simp [eraseKey]

inductive Event (Key : Type) where
  | join (key : Key)
  | leave (i : Nat)
  | post (i : Nat)
  | remove (i : Nat)

inductive Step : Registry Key → Event Key → Registry Key → Prop where
  | join (s key) (fresh : key ∉ s.members.map Prod.fst) :
      Step s (.join key) { s with
        members := s.members ++ [(key, false)]
        table := insertNew s.table key s.members.length }
  | leave (s i key left) (here : s.members[i]? = some (key, left)) :
      Step s (.leave i) { s with
        members := s.members.set i (key, true)
        table := eraseKey s.table key }
  | post (s i key left) (here : s.members[i]? = some (key, left)) :
      Step s (.post i) { s with
        members := s.members.set i (key, true)
        removals := s.removals ++ [i] }
  | remove (s i rest key left) (first : s.removals = i :: rest)
      (here : s.members[i]? = some (key, left)) :
      Step s (.remove i) { s with table := eraseKey s.table key, removals := rest }

/-- What holds even if messages are lost. -/
structure Standing (s : Registry Key) : Prop where
  distinct : (s.members.map Prod.fst).Nodup
  entries : ∀ key i, (key, i) ∈ s.table → ∃ left, s.members[i]? = some (key, left)
  kept : ∀ i key, s.members[i]? = some (key, false) → (key, i) ∈ s.table
  due : ∀ i ∈ s.removals, ∃ key, s.members[i]? = some (key, true)

structure Consistent (s : Registry Key) : Prop extends Standing s where
  gone : ∀ i key, s.members[i]? = some (key, true) → (key, i) ∉ s.table ∨ i ∈ s.removals

omit [DecidableEq Key] in
theorem Standing.lose {s : Registry Key} (hs : Standing s) {removals : List Nat}
    (fewer : ∀ i ∈ removals, i ∈ s.removals) : Standing { s with removals := removals } :=
  ⟨hs.distinct, hs.entries, hs.kept, fun i queued => hs.due i (fewer i queued)⟩

omit [DecidableEq Key] in
/-- No two members share a key. -/
theorem Standing.member_eq {s : Registry Key} (hs : Standing s) {i j : Nat} {key : Key}
    {a b : Bool} (hi : s.members[i]? = some (key, a)) (hj : s.members[j]? = some (key, b)) :
    i = j := by
  have first : (s.members.map Prod.fst)[i]? = some key := by rw [List.getElem?_map, hi]; rfl
  have second : (s.members.map Prod.fst)[j]? = some key := by rw [List.getElem?_map, hj]; rfl
  obtain ⟨bound, _⟩ := List.getElem?_eq_some_iff.mp first
  exact (List.getElem?_inj bound hs.distinct).mp (first.trans second.symm)

omit [DecidableEq Key] in
/-- Leaving changes one member, and not its key. -/
theorem members_left {members : List (Key × Bool)} {i j : Nat} {key key' : Key} {a b : Bool}
    (here : members[i]? = some (key, a)) (h : (members.set i (key, true))[j]? = some (key', b)) :
    (j = i ∧ key' = key ∧ b = true) ∨ (j ≠ i ∧ members[j]? = some (key', b)) := by
  by_cases same : j = i
  · subst same
    rw [List.getElem?_set_self (List.getElem?_eq_some_iff.mp here).choose] at h
    cases h
    exact .inl ⟨rfl, rfl, rfl⟩
  · rw [List.getElem?_set_ne (Ne.symm same)] at h
    exact .inr ⟨same, h⟩

omit [DecidableEq Key] in
theorem members_kept {members : List (Key × Bool)} {i j : Nat} {key key' : Key} {a b : Bool}
    (here : members[i]? = some (key, a)) (h : members[j]? = some (key', b)) :
    ∃ left, (members.set i (key, true))[j]? = some (key', left) ∧ (b = true → left = true) := by
  by_cases same : j = i
  · subst same
    cases here.symm.trans h
    exact ⟨true, List.getElem?_set_self (List.getElem?_eq_some_iff.mp here).choose, fun _ => rfl⟩
  · exact ⟨b, by rw [List.getElem?_set_ne (Ne.symm same), h], id⟩

omit [DecidableEq Key] in
theorem keys_left {members : List (Key × Bool)} {i : Nat} {key : Key} {a : Bool}
    (here : members[i]? = some (key, a)) :
    (members.set i (key, true)).map Prod.fst = members.map Prod.fst := by
  have same : (members.map Prod.fst)[i]? = some key := by rw [List.getElem?_map, here]; rfl
  obtain ⟨bound, eq⟩ := List.getElem?_eq_some_iff.mp same
  rw [List.map_set, ← eq, List.set_getElem_self]

/-- The key of a new member is in no entry. -/
theorem insert_fresh {s : Registry Key} (hs : Standing s) {key : Key}
    (fresh : key ∉ s.members.map Prod.fst) :
    insertNew s.table key s.members.length = (key, s.members.length) :: s.table := by
  apply if_neg
  intro used
  obtain ⟨i, entry⟩ := mem_keys.mp used
  obtain ⟨left, here⟩ := hs.entries key i entry
  exact fresh (List.mem_map.mpr ⟨_, List.mem_of_getElem? here, rfl⟩)

theorem standing_join {s : Registry Key} (hs : Standing s) {key : Key}
    (fresh : key ∉ s.members.map Prod.fst) :
    Standing { s with
      members := s.members ++ [(key, false)]
      table := insertNew s.table key s.members.length } := by
  have table := insert_fresh hs fresh
  have old {i : Nat} {member : Key × Bool} (h : s.members[i]? = some member) :
      (s.members ++ [(key, false)])[i]? = some member := by
    rw [List.getElem?_append_left (List.getElem?_eq_some_iff.mp h).choose, h]
  constructor
  · rw [List.map_append]
    refine List.nodup_append.mpr ⟨hs.distinct, List.nodup_singleton _, ?_⟩
    rintro a old b last rfl
    cases List.mem_singleton.mp last
    exact fresh old
  · intro key' i entry
    rw [table] at entry
    rcases List.mem_cons.mp entry with same | before
    · cases same
      exact ⟨false, by simp⟩
    · obtain ⟨left, here⟩ := hs.entries key' i before
      exact ⟨left, old here⟩
  · intro i key' here
    rw [table]
    obtain before | ⟨rfl, same⟩ := getElem?_concat_cases here
    · exact List.mem_cons_of_mem _ (hs.kept i key' before)
    · cases same
      exact List.mem_cons_self
  · intro i queued
    obtain ⟨key', here⟩ := hs.due i queued
    exact ⟨key', old here⟩

theorem consistent_join {s : Registry Key} (hs : Consistent s) {key : Key}
    (fresh : key ∉ s.members.map Prod.fst) :
    Consistent { s with
      members := s.members ++ [(key, false)]
      table := insertNew s.table key s.members.length } := by
  refine ⟨standing_join hs.toStanding fresh, fun i key' here => ?_⟩
  rw [insert_fresh hs.toStanding fresh]
  obtain before | ⟨_, same⟩ := getElem?_concat_cases here
  · refine (hs.gone i key' before).imp_left fun absent entry => ?_
    rcases List.mem_cons.mp entry with same | still
    · cases same
      exact fresh (List.mem_map.mpr ⟨_, List.mem_of_getElem? before, rfl⟩)
    · exact absent still
  · cases same

theorem standing_leave {s : Registry Key} (hs : Standing s) {i : Nat} {key : Key} {left : Bool}
    (here : s.members[i]? = some (key, left)) :
    Standing { s with
      members := s.members.set i (key, true)
      table := eraseKey s.table key } := by
  constructor
  · rw [keys_left here]
    exact hs.distinct
  · intro key' j entry
    obtain ⟨a, there⟩ := hs.entries key' j (mem_eraseKey.mp entry).1
    obtain ⟨b, now, _⟩ := members_kept here there
    exact ⟨b, now⟩
  · intro j key' there
    rcases members_left here there with ⟨_, _, absurd⟩ | ⟨other, before⟩
    · cases absurd
    · refine mem_eraseKey.mpr ⟨hs.kept j key' before, ?_⟩
      rintro rfl
      exact other (hs.member_eq before here)
  · intro j queued
    obtain ⟨key', there⟩ := hs.due j queued
    obtain ⟨b, now, stays⟩ := members_kept here there
    exact ⟨key', by rw [now, stays rfl]⟩

theorem consistent_leave {s : Registry Key} (hs : Consistent s) {i : Nat} {key : Key} {left : Bool}
    (here : s.members[i]? = some (key, left)) :
    Consistent { s with
      members := s.members.set i (key, true)
      table := eraseKey s.table key } := by
  refine ⟨standing_leave hs.toStanding here, fun j key' there => ?_⟩
  rcases members_left here there with ⟨_, rfl, _⟩ | ⟨_, before⟩
  · exact .inl fun entry => (mem_eraseKey.mp entry).2 rfl
  · exact (hs.gone j key' before).imp_left fun absent entry => absent (mem_eraseKey.mp entry).1

omit [DecidableEq Key] in
theorem standing_post {s : Registry Key} (hs : Standing s) {i : Nat} {key : Key} {left : Bool}
    (here : s.members[i]? = some (key, left)) :
    Standing { s with
      members := s.members.set i (key, true)
      removals := s.removals ++ [i] } := by
  constructor
  · rw [keys_left here]
    exact hs.distinct
  · intro key' j entry
    obtain ⟨a, there⟩ := hs.entries key' j entry
    obtain ⟨b, now, _⟩ := members_kept here there
    exact ⟨b, now⟩
  · intro j key' there
    rcases members_left here there with ⟨_, _, absurd⟩ | ⟨_, before⟩
    · cases absurd
    · exact hs.kept j key' before
  · intro j queued
    rcases List.mem_append.mp queued with before | last
    · obtain ⟨key', there⟩ := hs.due j before
      obtain ⟨b, now, stays⟩ := members_kept here there
      exact ⟨key', by rw [now, stays rfl]⟩
    · rw [List.mem_singleton.mp last]
      exact ⟨key, List.getElem?_set_self (List.getElem?_eq_some_iff.mp here).choose⟩

omit [DecidableEq Key] in
theorem consistent_post {s : Registry Key} (hs : Consistent s) {i : Nat} {key : Key} {left : Bool}
    (here : s.members[i]? = some (key, left)) :
    Consistent { s with
      members := s.members.set i (key, true)
      removals := s.removals ++ [i] } := by
  refine ⟨standing_post hs.toStanding here, fun j key' there => ?_⟩
  rcases members_left here there with ⟨rfl, _, _⟩ | ⟨_, before⟩
  · exact .inr (List.mem_append_right _ List.mem_cons_self)
  · exact (hs.gone j key' before).imp_right (List.mem_append_left _)

omit [DecidableEq Key] in
/-- Whom a message is about has left. -/
theorem Standing.left {s : Registry Key} (hs : Standing s) {i : Nat} {rest : List Nat} {key : Key}
    {left : Bool} (first : s.removals = i :: rest) (here : s.members[i]? = some (key, left)) :
    s.members[i]? = some (key, true) := by
  obtain ⟨key', gone⟩ := hs.due i (first ▸ List.mem_cons_self)
  cases here.symm.trans gone
  exact gone

theorem standing_remove {s : Registry Key} (hs : Standing s) {i : Nat} {rest : List Nat}
    {key : Key} {left : Bool} (first : s.removals = i :: rest)
    (here : s.members[i]? = some (key, left)) :
    Standing { s with table := eraseKey s.table key, removals := rest } := by
  have left := hs.left first here
  constructor
  · exact hs.distinct
  · intro key' j entry
    exact hs.entries key' j (mem_eraseKey.mp entry).1
  · intro j key' there
    refine mem_eraseKey.mpr ⟨hs.kept j key' there, ?_⟩
    rintro rfl
    cases hs.member_eq there left
    cases there.symm.trans left
  · intro j queued
    exact hs.due j (first ▸ List.mem_cons_of_mem _ queued)

theorem consistent_remove {s : Registry Key} (hs : Consistent s) {i : Nat} {rest : List Nat}
    {key : Key} {left : Bool} (first : s.removals = i :: rest)
    (here : s.members[i]? = some (key, left)) :
    Consistent { s with table := eraseKey s.table key, removals := rest } := by
  have left := hs.left first here
  refine ⟨standing_remove hs.toStanding first here, fun j key' there => ?_⟩
  by_cases same : key' = key
  · exact .inl fun entry => (mem_eraseKey.mp entry).2 same
  · rcases hs.gone j key' there with absent | queued
    · exact .inl fun entry => absent (mem_eraseKey.mp entry).1
    · rw [first] at queued
      rcases List.mem_cons.mp queued with rfl | later
      · cases there.symm.trans left
        exact absurd rfl same
      · exact .inr later

theorem step_standing {s t : Registry Key} {e : Event Key} (h : Step s e t)
    (hs : Standing s) : Standing t := by
  cases h with
  | join key fresh => exact standing_join hs fresh
  | leave i key left here => exact standing_leave hs here
  | post i key left here => exact standing_post hs here
  | remove i rest key left first here => exact standing_remove hs first here

theorem step_consistent {s t : Registry Key} {e : Event Key} (h : Step s e t)
    (hs : Consistent s) : Consistent t := by
  cases h with
  | join key fresh => exact consistent_join hs fresh
  | leave i key left here => exact consistent_leave hs here
  | post i key left here => exact consistent_post hs here
  | remove i rest key left first here => exact consistent_remove hs first here

def registry (Key : Type) [DecidableEq Key] : System (Registry Key) (Event Key) where
  start s := s = ⟨[], [], []⟩
  step := Step

theorem reachable_consistent {s : Registry Key} (h : (registry Key).Reachable s) :
    Consistent s := by
  refine System.invariant _ ?_ ?_ h
  · rintro _ rfl
    exact ⟨⟨List.nodup_nil, nofun, nofun, nofun⟩, nofun⟩
  · intro s e t hs step
    exact step_consistent step hs

omit [DecidableEq Key] in
/-- With no message on its way the table holds who joined and did not leave. -/
theorem Consistent.exact_of_quiet {s : Registry Key} (hs : Consistent s) (quiet : s.removals = [])
    (key : Key) (i : Nat) : (key, i) ∈ s.table ↔ s.members[i]? = some (key, false) := by
  refine ⟨fun entry => ?_, hs.kept i key⟩
  obtain ⟨left, here⟩ := hs.entries key i entry
  cases left with
  | false => exact here
  | true =>
    rcases hs.gone i key here with absent | queued
    · exact absurd entry absent
    · rw [quiet] at queued
      cases queued

end Registry

end Libatp.Base
