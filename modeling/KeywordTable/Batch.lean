import KeywordTable.Request

/-!
# Batches

A store takes at most 25 writes or 100 keys in one call, and of these it may leave
any part for later.  A batch is cut into groups of that size; each group is sent,
and what the store left over is sent again until nothing is left, before the next
group has its turn.

A store that never gets anything done would be asked forever, so the number of
rounds that one group may take is bounded by the caller.  A batch that runs out
of rounds stops there and hands back everything that is still to be done; a
batch that hands back nothing is done.
-/

namespace KeywordTable

/-- How many writes a call carries at most. -/
def maxBatchWrite : Nat := 25

/-- How many keys a call carries at most. -/
def maxBatchGet : Nat := 100

/-- Cut into groups of `size + 1`; only the last may be smaller. -/
def groupsOf {α : Type} (size : Nat) (xs : List α) : List (List α) :=
  match xs with
  | [] => []
  | x :: rest => (x :: rest.take size) :: groupsOf size (rest.drop size)
termination_by xs.length
decreasing_by simp only [List.length_drop, List.length_cons]; omega

/-- A cut loses nothing and keeps the order. -/
theorem flatten_groupsOf {α : Type} (size : Nat) (xs : List α) :
    (groupsOf size xs).flatten = xs := by
  fun_induction groupsOf size xs with
  | case1 => rfl
  | case2 x rest ih => simp [ih]

/-- A group holds at least one and at most `size + 1`. -/
theorem length_of_mem_groupsOf {α : Type} {size : Nat} {xs group : List α}
    (h : group ∈ groupsOf size xs) : 1 ≤ group.length ∧ group.length ≤ size + 1 := by
  fun_induction groupsOf size xs with
  | case1 => cases h
  | case2 x rest ih =>
    rcases List.mem_cons.mp h with rfl | h
    · rw [List.length_cons, List.length_take]
      omega
    · exact ih h

/-- No group is empty. -/
theorem ne_nil_of_mem_groupsOf {α : Type} {size : Nat} {xs group : List α}
    (h : group ∈ groupsOf size xs) : group ≠ [] :=
  List.length_pos_iff.mp (length_of_mem_groupsOf h).1

/-- A group is a part of the list that was cut. -/
theorem sublist_of_mem_groupsOf {α : Type} {size : Nat} {xs group : List α}
    (h : group ∈ groupsOf size xs) : group.Sublist xs := by
  have hflatten := List.sublist_flatten_of_mem h
  rwa [flatten_groupsOf] at hflatten

/-- What holds of any two that fall into one group holds inside every group. -/
theorem pairwise_of_mem_groupsOf {α : Type} {R : α → α → Prop} {size : Nat} {xs group : List α}
    (hR : ∀ i j, (hlt : i < j) → (hj : j < xs.length) → i / (size + 1) = j / (size + 1) →
      R xs[i] xs[j])
    (h : group ∈ groupsOf size xs) : group.Pairwise R := by
  fun_induction groupsOf size xs with
  | case1 => cases h
  | case2 x rest ih =>
    rcases List.mem_cons.mp h with rfl | h
    · rw [← List.take_succ_cons, List.pairwise_iff_getElem]
      intro i j hi hj hlt
      rw [List.length_take] at hi hj
      rw [List.getElem_take, List.getElem_take]
      refine hR i j hlt (by omega) ?_
      rw [Nat.div_eq_of_lt (by omega), Nat.div_eq_of_lt (by omega)]
    · refine ih (fun i j hlt hj hdiv => ?_) h
      rw [List.length_drop] at hj
      have hlater (k : Nat) : (k + size + 1) / (size + 1) = k / (size + 1) + 1 :=
        Nat.add_div_right k (Nat.succ_pos size)
      have hbehind := hR (i + size + 1) (j + size + 1) (by omega)
        (by rw [List.length_cons]; omega) (by rw [hlater, hlater, hdiv])
      simpa [Nat.add_comm] using hbehind

variable {σ : Type}

/-- Send writes, and again what is left of them; hands back what is left after
the last round. -/
def writeGroup (store : Store σ) (table : String) :
    Nat → List WriteRequest → Run σ (List WriteRequest)
  | _, [] => return []
  | 0, pending => return pending
  | rounds + 1, pending => do
    let unprocessed ← store.answer (.batchWrite table pending)
    writeGroup store table rounds unprocessed

/-- Send groups of writes one after the other; hands back what is still to be
done. -/
def writeGroups (store : Store σ) (table : String) (rounds : Nat) :
    List (List WriteRequest) → Run σ (List WriteRequest)
  | [] => return []
  | group :: groups => do
    match ← writeGroup store table rounds group with
    | [] => writeGroups store table rounds groups
    | pending => return pending ++ groups.flatten

/-- A batch of writes to one table. -/
structure BatchWrite where
  table : String
  requests : List WriteRequest

/-- Send a batch of writes; hands back what is still to be done. -/
def BatchWrite.send (batch : BatchWrite) (store : Store σ) (rounds : Nat) :
    Run σ (List WriteRequest) :=
  writeGroups store batch.table rounds (groupsOf (maxBatchWrite - 1) batch.requests)

/-- Ask for keys, and again for those that are left; hands back the items found
and the keys left after the last round. -/
def readGroup (store : Store σ) (read : ItemReadCall) : Nat → List Item → Run σ BatchFound
  | _, [] => return {}
  | 0, pending => return { unprocessed := pending }
  | rounds + 1, pending => do
    let found ← store.answer (.batchGet pending read)
    let rest ← readGroup store read rounds found.unprocessed
    return { rest with items := found.items ++ rest.items }

/-- Ask for groups of keys one after the other; hands back the items found and
the keys that are still to be asked for. -/
def readGroups (store : Store σ) (read : ItemReadCall) (rounds : Nat) :
    List (List Item) → Run σ BatchFound
  | [] => return {}
  | group :: groups => do
    let found ← readGroup store read rounds group
    match found.unprocessed with
    | [] =>
      let rest ← readGroups store read rounds groups
      return { rest with items := found.items ++ rest.items }
    | pending => return { found with unprocessed := pending ++ groups.flatten }

/-- A batch of keys of one table. -/
structure BatchGet where
  keys : List Item
  read : ItemRead

/-- Ask for a batch of keys; hands back the items found, in the order in which the
store gave them, and the keys that are still to be asked for. -/
def BatchGet.send (batch : BatchGet) (store : Store σ) (rounds : Nat) : Run σ BatchFound :=
  readGroups store batch.read.toCall rounds (groupsOf (maxBatchGet - 1) batch.keys)

end KeywordTable
