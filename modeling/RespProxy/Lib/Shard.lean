import Mathlib.Data.List.Nodup
import Mathlib.Logic.Function.Basic

/-! # Stores that are split into shards

A store maps keys to values. An access works on the value of one key and gives a
reply (`Access`). When every key belongs to one shard, a list of accesses can be
run on one store or, shard by shard, on the stores of the shards: the replies and
the contents are the same (`runAll_whole`, `replies_whole`).

Jobs on different shards can be run in any order (`runJobs_replies`,
`runJobs_stores`).
-/

namespace Shard

abbrev Store (K V : Type) := K → Option V

/-- An access to one key: the reply and the new value, from the old value. -/
structure Access (K V R : Type) where
  key : K
  act : Option V → R × Option V

variable {K V R S : Type} [DecidableEq K] [DecidableEq S]

def Access.run (a : Access K V R) (st : Store K V) : R × Store K V :=
  ((a.act (st a.key)).1, Function.update st a.key (a.act (st a.key)).2)

/-- Accesses one after the other, with their replies. -/
def runAll : List (Access K V R) → Store K V → List R × Store K V
  | [], st => ([], st)
  | a :: as, st => ((a.run st).1 :: (runAll as (a.run st).2).1, (runAll as (a.run st).2).2)

@[simp] theorem length_runAll (as : List (Access K V R)) (st : Store K V) :
    (runAll as st).1.length = as.length := by
  induction as generalizing st with
  | nil => rfl
  | cons a as ih => simp [runAll, ih]

/-! ## One store or many -/

/-- The store that holds each key as its shard does. -/
def whole (slot : K → S) (stores : S → Store K V) : Store K V := fun k => stores (slot k) k

/-- The accesses to one shard. -/
def ofShard (slot : K → S) (s : S) (as : List (Access K V R)) : List (Access K V R) :=
  as.filter fun a => slot a.key = s

variable {slot : K → S} {stores : S → Store K V}

theorem run_whole (a : Access K V R) :
    a.run (whole slot stores) = ((a.run (stores (slot a.key))).1,
      whole slot (Function.update stores (slot a.key) (a.run (stores (slot a.key))).2)) := by
  refine Prod.ext rfl (funext fun k => ?_)
  by_cases hk : k = a.key
  · subst hk
    simp [Access.run, whole]
  · by_cases hs : slot k = slot a.key
    · simp [Access.run, whole, hk, hs]
    · simp [Access.run, whole, hk, hs]

/-- What one access changes for a shard. -/
theorem runAll_ofShard_cons (a : Access K V R) (as : List (Access K V R)) (s : S) :
    (runAll (ofShard slot s (a :: as)) (stores s)).2 =
      (runAll (ofShard slot s as)
        (Function.update stores (slot a.key) (a.run (stores (slot a.key))).2 s)).2 := by
  by_cases hs : slot a.key = s
  · subst hs
    simp [ofShard, runAll]
  · simp [ofShard, hs, Function.update_of_ne (Ne.symm hs)]

/-- The contents are the same. -/
theorem runAll_whole (as : List (Access K V R)) :
    whole slot (fun s => (runAll (ofShard slot s as) (stores s)).2) =
      (runAll as (whole slot stores)).2 := by
  induction as generalizing stores with
  | nil => rfl
  | cons a as ih =>
    simp only [runAll_ofShard_cons]
    rw [ih, runAll, run_whole]

/-- The replies of a shard are those to its accesses. -/
theorem replies_whole (as : List (Access K V R)) (s : S) :
    (runAll (ofShard slot s as) (stores s)).1 =
      ((as.zip (runAll as (whole slot stores)).1).filter fun x => slot x.1.key = s).map
        Prod.snd := by
  induction as generalizing stores with
  | nil => rfl
  | cons a as ih =>
    by_cases hs : slot a.key = s
    · subst hs
      have hrest := @ih (Function.update stores (slot a.key) (a.run (stores (slot a.key))).2)
      rw [Function.update_self] at hrest
      rw [runAll, run_whole, ofShard, List.filter_cons_of_pos (by simp), runAll, List.zip_cons_cons,
        List.filter_cons_of_pos (by simp), List.map_cons, ← hrest]
      rfl
    · have hrest := @ih (Function.update stores (slot a.key) (a.run (stores (slot a.key))).2)
      rw [Function.update_of_ne (Ne.symm hs)] at hrest
      rw [runAll, run_whole, ofShard, List.filter_cons_of_neg (by simpa using hs),
        List.zip_cons_cons, List.filter_cons_of_neg (by simpa using hs), ← hrest]
      rfl

/-! ## Jobs in any order -/

section Jobs

variable {St Q : Type}

/-- A job on the store of one shard. -/
structure Job (S St Q : Type) where
  shard : S
  run : St → Q × St

/-- Run job number `i`; its reply goes to place `i`. -/
def runJob (jobs : List (Job S St Q)) (x : (S → St) × List Q) (i : Nat) : (S → St) × List Q :=
  match jobs[i]? with
  | none => x
  | some j => (Function.update x.1 j.shard (j.run (x.1 j.shard)).2,
      x.2.set i (j.run (x.1 j.shard)).1)

/-- Run the jobs in the given order. -/
def runJobs (jobs : List (Job S St Q)) (order : List Nat) (x : (S → St) × List Q) :
    (S → St) × List Q :=
  order.foldl (runJob jobs) x

variable {jobs : List (Job S St Q)} {order : List Nat}

omit [DecidableEq S] in
theorem shard_injective (hjobs : (jobs.map Job.shard).Nodup) {i i' : Nat} {j j' : Job S St Q}
    (hi : jobs[i]? = some j) (hi' : jobs[i']? = some j') (h : j.shard = j'.shard) : i = i' := by
  have hlt : i < (jobs.map Job.shard).length := by
    simpa using (List.getElem?_eq_some_iff.1 hi).1
  exact (List.getElem?_inj hlt hjobs).1 (by simp [hi, hi', h])

/-- A job that is not run leaves its shard and its place alone. -/
theorem runJobs_other (hjobs : (jobs.map Job.shard).Nodup) (x : (S → St) × List Q) {i : Nat}
    {j : Job S St Q} (hi : jobs[i]? = some j) (horder : i ∉ order) :
    (runJobs jobs order x).1 j.shard = x.1 j.shard ∧ (runJobs jobs order x).2[i]? = x.2[i]? := by
  induction order generalizing x with
  | nil => exact ⟨rfl, rfl⟩
  | cons o order ih =>
    rw [List.mem_cons, not_or] at horder
    obtain ⟨hstore, hreply⟩ := ih (runJob jobs x o) horder.2
    rw [runJobs, List.foldl_cons]
    refine ⟨hstore.trans ?_, hreply.trans ?_⟩
    · unfold runJob
      split
      · rfl
      · rename_i j' hj'
        refine Function.update_of_ne (fun hs => horder.1 ?_) _ _
        exact shard_injective hjobs hi hj' hs
    · unfold runJob
      split
      · rfl
      · rw [List.getElem?_set_ne (Ne.symm horder.1)]

/-- A job that is run finds its shard as it was, whatever ran before. -/
theorem runJobs_mem (hjobs : (jobs.map Job.shard).Nodup) (hnodup : order.Nodup)
    (x : (S → St) × List Q) {i : Nat} {j : Job S St Q} (hi : jobs[i]? = some j)
    (hlen : i < x.2.length) (horder : i ∈ order) :
    (runJobs jobs order x).1 j.shard = (j.run (x.1 j.shard)).2 ∧
      (runJobs jobs order x).2[i]? = some (j.run (x.1 j.shard)).1 := by
  induction order generalizing x with
  | nil => cases horder
  | cons o order ih =>
    rw [List.nodup_cons] at hnodup
    rw [runJobs, List.foldl_cons]
    by_cases ho : i = o
    · subst ho
      obtain ⟨hstore, hreply⟩ := runJobs_other hjobs (runJob jobs x i) hi hnodup.1
      refine ⟨hstore.trans ?_, hreply.trans ?_⟩
      · simp [runJob, hi]
      · simp [runJob, hi, hlen]
    · have hsame : (runJob jobs x o).1 j.shard = x.1 j.shard :=
        (runJobs_other hjobs x hi (List.mem_singleton.not.2 ho)).1
      have hlen' : i < (runJob jobs x o).2.length := by
        unfold runJob
        split
        · exact hlen
        · rwa [List.length_set]
      have hrest := ih hnodup.2 (runJob jobs x o) hlen'
        ((List.mem_cons.1 horder).resolve_left ho)
      rwa [hsame] at hrest

/-- The shards of no job are left alone. -/
theorem runJobs_shard (x : (S → St) × List Q) {s : S} (hs : s ∉ jobs.map Job.shard) :
    (runJobs jobs order x).1 s = x.1 s := by
  induction order generalizing x with
  | nil => rfl
  | cons o order ih =>
    rw [runJobs, List.foldl_cons]
    refine (ih (runJob jobs x o)).trans ?_
    unfold runJob
    split
    · rfl
    · rename_i j hj
      refine Function.update_of_ne (fun h => hs ?_) _ _
      exact List.mem_map.2 ⟨j, List.mem_of_getElem? hj, h.symm⟩

@[simp] theorem length_runJobs (x : (S → St) × List Q) :
    (runJobs jobs order x).2.length = x.2.length := by
  induction order generalizing x with
  | nil => rfl
  | cons o order ih =>
    rw [runJobs, List.foldl_cons]
    refine (ih (runJob jobs x o)).trans ?_
    unfold runJob
    split
    · rfl
    · rw [List.length_set]

variable (hjobs : (jobs.map Job.shard).Nodup) (horder : order.Perm (List.range jobs.length))
include hjobs horder

/-- In any order, each job gives the reply it gives on the initial store of its shard. -/
theorem runJobs_replies (x : (S → St) × List Q) (hlen : x.2.length = jobs.length) :
    (runJobs jobs order x).2 = jobs.map fun j => (j.run (x.1 j.shard)).1 := by
  refine List.ext_getElem? fun i => ?_
  by_cases hi : i < jobs.length
  · have hj : jobs[i]? = some jobs[i] := List.getElem?_eq_getElem hi
    have hmem : i ∈ order := horder.mem_iff.2 (List.mem_range.2 hi)
    rw [(runJobs_mem hjobs (horder.nodup_iff.2 List.nodup_range) x hj (by omega) hmem).2,
      List.getElem?_map, hj]
    rfl
  · rw [List.getElem?_eq_none (by simp; omega), List.getElem?_eq_none (by simp; omega)]

/-- In any order, the store of a job's shard ends as the job alone leaves it. -/
theorem runJobs_stores (x : (S → St) × List Q) (hlen : x.2.length = jobs.length) {j : Job S St Q}
    (hj : j ∈ jobs) : (runJobs jobs order x).1 j.shard = (j.run (x.1 j.shard)).2 := by
  obtain ⟨i, hi⟩ := List.mem_iff_getElem?.1 hj
  have hlt : i < jobs.length := (List.getElem?_eq_some_iff.1 hi).1
  have hmem : i ∈ order := horder.mem_iff.2 (List.mem_range.2 hlt)
  exact (runJobs_mem hjobs (horder.nodup_iff.2 List.nodup_range) x hi (by omega) hmem).1

end Jobs

end Shard
