import Concordance.Proofs.Cache
import Concordance.Proofs.Sequences
import Mathlib.Data.Finset.Card

/-!
# What a cache remembers

A cache is asked to get, to put and to clear, in any order. The calls and what they found are its
log, and the log says all about it: a key has the value that was put last under it, as long as the
other keys that were used since are fewer than the cache has room for. A cache without bound would
keep all keys in the order of their last use (`order`), and a cache keeps the front of it.
-/

namespace Concordance.Cache

open Sequences

/-- What a cache is asked for. -/
inductive Call (κ ν : Type) where
  | get (key : κ)
  | put (key : κ) (value : ν)
  | clear
  deriving DecidableEq, Repr

variable {κ ν : Type}

def Call.isGet : Call κ ν → Bool
  | get _ => true
  | put _ _ => false
  | clear => false

@[simp] theorem Call.isGet_get {key : κ} : (Call.get key : Call κ ν).isGet = true := rfl

@[simp] theorem Call.isGet_put {key : κ} {value : ν} : (Call.put key value).isGet = false := rfl

@[simp] theorem Call.isGet_clear : (Call.clear : Call κ ν).isGet = false := rfl

variable [DecidableEq κ]

/-- What a call finds, and the cache after it. -/
def respond (cache : Cache κ ν) : Call κ ν → Option ν × Cache κ ν
  | .get key => cache.get key
  | .put key value => (none, cache.put key value)
  | .clear => (none, cache.clear)

/-- Responds to calls in turn. -/
def respondAll (cache : Cache κ ν) : List (Call κ ν) → List (Call κ ν × Option ν) × Cache κ ν
  | [] => ([], cache)
  | call :: calls =>
    ((call, (cache.respond call).1) :: ((cache.respond call).2.respondAll calls).1,
      ((cache.respond call).2.respondAll calls).2)

/-! What a log says, whatever the room. -/

/-- The key that a call used: the one it put a value under, or found a value under. -/
def used? : Call κ ν × Option ν → Option κ
  | (.put key _, _) => some key
  | (.get key, some _) => some key
  | _ => none

/-- The other keys that were used since this one was. -/
def usedSince (log : List (Call κ ν × Option ν)) (key : κ) : Finset κ :=
  ((log.filterMap used?).reverse.takeWhile (· ≠ key)).toFinset

/-- The value of a key after a call, if none is given up for want of room. -/
def kept (key : κ) (value? : Option ν) : Call κ ν → Option ν
  | .get _ => value?
  | .put other value => if other = key then some value else value?
  | .clear => none

/-- The value put last under a key since the cache was last cleared. -/
def lastPut? (log : List (Call κ ν × Option ν)) (key : κ) : Option ν :=
  log.foldl (fun value? entry => kept key value? entry.1) none

/-- The keys with a value after a call, if none is given up for want of room. -/
def touch (keys : List κ) : Call κ ν × Option ν → List κ
  | (.put key _, _) => key :: keys.filter (· ≠ key)
  | (.get key, some _) => key :: keys.filter (· ≠ key)
  | (.get _, none) => keys
  | (.clear, _) => []

/-- The keys with a value in a cache without bound, the one last used first. -/
def order (log : List (Call κ ν × Option ν)) : List κ := log.foldl touch []

variable {cache : Cache κ ν} {log : List (Call κ ν × Option ν)} {entry : Call κ ν × Option ν}
  {key other : κ} {value : ν}

theorem order_concat : order (log ++ [entry]) = touch (order log) entry := List.foldl_concat ..

theorem lastPut?_concat : lastPut? (log ++ [entry]) key = kept key (lastPut? log key) entry.1 :=
  List.foldl_concat ..

/-- A call uses a key, which comes to the front, or it uses none. -/
theorem touch_cases (keys : List κ) (entry : Call κ ν × Option ν) :
    (∃ key, used? entry = some key ∧ touch keys entry = key :: keys.filter (· ≠ key)) ∨
      used? entry = none ∧ (touch keys entry = keys ∨ touch keys entry = []) := by
  obtain ⟨call, found?⟩ := entry
  cases call with
  | get key =>
      cases found? with
      | none => exact .inr ⟨rfl, .inl rfl⟩
      | some value => exact .inl ⟨key, rfl, rfl⟩
  | put key value => exact .inl ⟨key, rfl, rfl⟩
  | clear => exact .inr ⟨rfl, .inr rfl⟩

theorem nodup_order (log : List (Call κ ν × Option ν)) : (order log).Nodup := by
  induction log using List.reverseRecOn with
  | nil => exact .nil
  | append_singleton log entry ih =>
      rw [order_concat]
      obtain ⟨key, -, htouch⟩ | ⟨-, htouch | htouch⟩ := touch_cases (order log) entry
      all_goals rw [htouch]
      · exact List.nodup_cons.2 ⟨by simp, ih.filter _⟩
      · exact ih
      · exact .nil

/-- The keys ahead of a key are those used since. -/
theorem mem_takeWhile_order_iff (h : key ∈ order log) :
    other ∈ (order log).takeWhile (· ≠ key) ↔ other ∈ usedSince log key := by
  induction log using List.reverseRecOn with
  | nil => cases h
  | append_singleton log entry ih =>
      rw [order_concat] at h ⊢
      rw [usedSince, filterMap_concat]
      obtain ⟨first, hused, htouch⟩ | ⟨hused, htouch | htouch⟩ := touch_cases (order log) entry
      all_goals
        rw [htouch] at h ⊢
        rw [hused]
      · by_cases hfirst : first = key
        · simp [hfirst]
        · have hkey : key ∈ order log := by simpa [Ne.symm hfirst] using h
          rw [List.takeWhile_cons_of_pos (by simpa using hfirst), takeWhile_ne_filter hfirst,
            List.mem_cons, List.mem_filter, ih hkey, usedSince]
          simp [hfirst]
          tauto
      · rw [ih h, usedSince, Option.toList_none, List.append_nil]
      · cases h

theorem card_usedSince (h : key ∈ order log) :
    (usedSince log key).card = (order log).idxOf key := by
  have hsince : usedSince log key = ((order log).takeWhile (· ≠ key)).toFinset := by
    ext other
    rw [List.mem_toFinset, mem_takeWhile_order_iff h]
  rw [hsince, List.toFinset_card_of_nodup ((List.takeWhile_sublist _).nodup (nodup_order log)),
    length_takeWhile_ne]

/-! What a cache keeps is the front of the order, with the values put last. -/

structure Recalls (cache : Cache κ ν) (log : List (Call κ ν × Option ν)) : Prop where
  capacity_pos : 0 < cache.capacity
  keys_eq : cache.entries.map (·.1) = (order log).take cache.capacity
  value_eq : ∀ entry ∈ cache.entries, lastPut? log entry.1 = some entry.2
  mem_order_iff : ∀ key, key ∈ order log ↔ (lastPut? log key).isSome = true

namespace Recalls

/-- The keys kept are those with few enough others used since. -/
theorem mem_keys_iff (h : cache.Recalls log) (key : κ) :
    key ∈ cache.entries.map (·.1) ↔
      key ∈ order log ∧ (usedSince log key).card < cache.capacity := by
  rw [h.keys_eq]
  constructor
  · intro hm
    have horder := List.mem_of_mem_take hm
    rw [List.mem_take_iff_idxOf_lt horder, ← card_usedSince horder] at hm
    exact ⟨horder, hm⟩
  · rintro ⟨horder, hcard⟩
    rwa [List.mem_take_iff_idxOf_lt horder, ← card_usedSince horder]

theorem get_eq (h : cache.Recalls log) (key : κ) :
    (cache.get key).1 =
      if (usedSince log key).card < cache.capacity then lastPut? log key else none := by
  obtain ⟨value, hm, hget⟩ | ⟨hm, hget⟩ := cache.get_cases key
  · have hcard := ((h.mem_keys_iff key).1 (List.mem_map_of_mem hm)).2
    rw [hget, if_pos hcard, h.value_eq _ hm]
  · rw [hget]
    split
    · next hcard =>
        have horder : key ∉ order log := fun horder => hm ((h.mem_keys_iff key).2 ⟨horder, hcard⟩)
        rw [h.mem_order_iff, Option.isSome_iff_ne_none, not_not] at horder
        exact horder.symm
    · rfl

theorem size_le (h : cache.Recalls log) : cache.size ≤ cache.capacity := by
  have hlength := congrArg List.length h.keys_eq
  rw [List.length_map, List.length_take] at hlength
  exact hlength.trans_le (Nat.min_le_left ..)

/-- All entries but one are under other keys than one that is kept. -/
theorem length_others (h : cache.Recalls log) (hm : key ∈ cache.entries.map (·.1)) :
    (cache.others key).length + 1 = cache.size := by
  have hnodup : (cache.entries.map (·.1)).Nodup := by
    rw [h.keys_eq]
    exact (List.take_sublist ..).nodup (nodup_order log)
  have hothers : (cache.others key).map (·.1) = (cache.entries.map (·.1)).erase key := by
    rw [map_fst_others, hnodup.erase_eq_filter]
    simp [bne, beq_eq_decide]
  have hlength := congrArg List.length hothers
  have hpos := List.length_pos_of_mem hm
  rw [List.length_erase_of_mem hm, List.length_map, List.length_map] at hlength
  rw [List.length_map] at hpos
  rw [size]
  omega

/-- A call that uses a key brings it to the front, and other keys make room for it. -/
theorem use (h : cache.Recalls log) {next : Cache κ ν} (hused : used? entry = some key)
    (hkey : lastPut? (log ++ [entry]) key = some value)
    (hothers : ∀ other, other ≠ key → lastPut? (log ++ [entry]) other = lastPut? log other)
    (hcapacity : next.capacity = cache.capacity)
    (hentries : next.entries = (key, value) :: (cache.others key).take (cache.capacity - 1)) :
    next.Recalls (log ++ [entry]) := by
  have horder : order (log ++ [entry]) = key :: (order log).filter (· ≠ key) := by
    rw [order_concat]
    obtain ⟨first, hfirst, htouch⟩ | ⟨hnone, -⟩ := touch_cases (order log) entry
    · rw [hused, Option.some.injEq] at hfirst
      rw [htouch, hfirst]
    · rw [hused] at hnone
      cases hnone
  refine ⟨hcapacity ▸ h.capacity_pos, ?keys, ?values, ?order⟩
  case keys =>
      obtain ⟨room, hroom⟩ := Nat.exists_eq_succ_of_ne_zero h.capacity_pos.ne'
      rw [hentries, hcapacity, horder, hroom, List.take_succ_cons, List.map_cons, List.map_take,
        map_fst_others, h.keys_eq, hroom, Nat.succ_sub_one, take_filter_take (nodup_order log)]
  case values =>
      intro found hm
      rw [hentries] at hm
      rcases List.mem_cons.1 hm with rfl | hm
      · exact hkey
      · have hm := List.mem_filter.1 ((List.take_subset ..) hm)
        rw [hothers found.1 (by simpa using hm.2)]
        exact h.value_eq found hm.1
  case order =>
      intro other
      rw [horder]
      by_cases hother : other = key
      · simp [hother, hkey]
      · rw [hothers other hother, ← h.mem_order_iff]
        simp [hother]

theorem respond (h : cache.Recalls log) (call : Call κ ν) :
    (cache.respond call).2.Recalls (log ++ [(call, (cache.respond call).1)]) := by
  cases call with
  | get key =>
      have hkept (other : κ) (found? : Option ν) :
          lastPut? (log ++ [(.get key, found?)]) other = lastPut? log other := lastPut?_concat
      rw [Cache.respond]
      obtain ⟨value, hm, hget⟩ | ⟨-, hget⟩ := cache.get_cases key
      all_goals rw [hget]
      · have hroom : (cache.others key).length ≤ cache.capacity - 1 := by
          have hothers : (cache.others key).length + 1 = cache.size :=
            h.length_others (List.mem_map_of_mem hm)
          have hsize := h.size_le
          omega
        apply h.use rfl
        · rw [hkept, h.value_eq _ hm]
        · exact fun other _ => hkept other _
        · rfl
        · rw [List.take_of_length_le hroom]
      · refine ⟨h.capacity_pos, ?_, ?_, ?_⟩
        · rw [order_concat]
          exact h.keys_eq
        · intro found hm
          rw [hkept]
          exact h.value_eq found hm
        · intro other
          rw [order_concat, hkept]
          exact h.mem_order_iff other
  | put key value =>
      apply h.use rfl
      · rw [lastPut?_concat]
        exact if_pos rfl
      · intro other hother
        rw [lastPut?_concat]
        exact if_neg (Ne.symm hother)
      · rfl
      · rfl
  | clear =>
      refine ⟨h.capacity_pos, ?_, ?_, ?_⟩
      · rw [order_concat]
        exact List.take_nil.symm
      · intro found hm
        cases hm
      · intro other
        rw [order_concat, lastPut?_concat]
        exact iff_of_false List.not_mem_nil Bool.false_ne_true

/-- A key that is looked for in vain leaves the values of a cache as they are. -/
theorem missed (h : cache.Recalls log) {kept : Cache κ ν} (hget : cache.get key = (none, kept)) :
    kept.Recalls log ∧ kept.capacity = cache.capacity := by
  obtain ⟨value, -, hfound⟩ | ⟨-, hmissed⟩ := cache.get_cases key
  · rw [hfound] at hget
    cases hget
  · rw [hmissed] at hget
    cases hget
    exact ⟨⟨h.capacity_pos, h.keys_eq, h.value_eq, h.mem_order_iff⟩, rfl⟩

end Recalls

/-! What a cache tells of itself. -/

structure Counts (cache : Cache κ ν) (log : List (Call κ ν × Option ν)) : Prop where
  counted_eq : cache.counted = cache.size
  hits_eq : cache.hits = log.countP fun entry => entry.1.isGet && entry.2.isSome
  tries_eq : cache.hits + cache.misses = log.countP fun entry => entry.1.isGet

theorem Counts.respond (h : cache.Counts log) (hrecalls : cache.Recalls log) (call : Call κ ν) :
    (cache.respond call).2.Counts (log ++ [(call, (cache.respond call).1)]) := by
  have hhits := h.hits_eq
  have htries := h.tries_eq
  cases call with
  | get key =>
      rw [Cache.respond]
      obtain ⟨value, hm, hget⟩ | ⟨-, hget⟩ := cache.get_cases key
      all_goals rw [hget]
      · have hothers := hrecalls.length_others (List.mem_map_of_mem hm)
        exact ⟨h.counted_eq.trans hothers.symm, by simp [hhits], by simp; omega⟩
      · exact ⟨h.counted_eq, by simp [hhits], by simp; omega⟩
  | put key value => exact ⟨rfl, hhits.trans (by simp), htries.trans (by simp)⟩
  | clear => exact ⟨rfl, hhits.trans (by simp), htries.trans (by simp)⟩

/-- What a cache is after it responded to calls, by its log. -/
theorem follows_respondAll (hrecalls : cache.Recalls log) (hcounts : cache.Counts log)
    (calls : List (Call κ ν)) :
    (cache.respondAll calls).2.Recalls (log ++ (cache.respondAll calls).1) ∧
      (cache.respondAll calls).2.Counts (log ++ (cache.respondAll calls).1) := by
  induction calls generalizing cache log with
  | nil =>
      rw [respondAll, List.append_nil]
      exact ⟨hrecalls, hcounts⟩
  | cons call calls ih =>
      have hrest := ih (hrecalls.respond call) (hcounts.respond hrecalls call)
      rwa [List.append_assoc, List.singleton_append] at hrest

theorem capacity_respond (cache : Cache κ ν) (call : Call κ ν) :
    (cache.respond call).2.capacity = cache.capacity := by
  cases call with
  | get key =>
      rw [respond]
      obtain ⟨value, -, hget⟩ | ⟨-, hget⟩ := cache.get_cases key
      all_goals rw [hget]
  | put key value => rfl
  | clear => rfl

theorem capacity_respondAll (cache : Cache κ ν) (calls : List (Call κ ν)) :
    (cache.respondAll calls).2.capacity = cache.capacity := by
  induction calls generalizing cache with
  | nil => rfl
  | cons call calls ih => exact (ih _).trans (cache.capacity_respond call)

theorem map_fst_respondAll (cache : Cache κ ν) (calls : List (Call κ ν)) :
    (cache.respondAll calls).1.map (·.1) = calls := by
  induction calls generalizing cache with
  | nil => rfl
  | cons call calls ih => exact congrArg (call :: ·) (ih _)

theorem recalls_ofCapacity (capacity : Nat) : (ofCapacity capacity : Cache κ ν).Recalls [] where
  capacity_pos := Nat.lt_of_lt_of_le Nat.one_pos (Nat.le_max_right ..)
  keys_eq := List.take_nil.symm
  value_eq := by simp [ofCapacity]
  mem_order_iff := by simp [order, lastPut?]

omit [DecidableEq κ] in
theorem counts_ofCapacity (capacity : Nat) : (ofCapacity capacity : Cache κ ν).Counts [] :=
  ⟨rfl, rfl, rfl⟩

/-- After any calls, a key has the value put last under it since the cache was cleared, unless the
other keys used since are as many as the cache has room for. The cache tells its size truly and
stays within its room, and it counts each search as one that found a value or one that did not. -/
theorem get_eq_lastPut (capacity : Nat) {calls : List (Call κ ν)}
    (h : (ofCapacity capacity).respondAll calls = (log, cache)) :
    (∀ (room : Room) (start : Cache κ ν), allocate room capacity = .ok start ↔
      room capacity = .ok () ∧ start = ofCapacity capacity) ∧
      (∀ key, (cache.get key).1 =
        if (usedSince log key).card < max capacity 1 then lastPut? log key else none) ∧
      cache.size = cache.stats.size ∧ cache.size ≤ max capacity 1 ∧
      cache.stats.hits + cache.stats.misses = calls.countP (·.isGet) ∧
      cache.stats.hits = log.countP fun entry => entry.1.isGet && entry.2.isSome := by
  have hrun := follows_respondAll (recalls_ofCapacity capacity) (counts_ofCapacity capacity) calls
  have hcapacity := capacity_respondAll (ofCapacity capacity) calls
  have hcalls := map_fst_respondAll (ofCapacity capacity) calls
  rw [h] at hrun hcapacity hcalls
  obtain ⟨hrecalls, hcounts⟩ := hrun
  have hroom : cache.capacity = max capacity 1 := hcapacity
  refine ⟨fun room start => allocate_eq_ok_iff, ?_, hcounts.counted_eq.symm, ?_, ?_,
    hcounts.hits_eq⟩
  · rw [← hroom]
    exact hrecalls.get_eq
  · rw [← hroom]
    exact hrecalls.size_le
  · rw [← hcalls, List.countP_map]
    exact hcounts.tries_eq

/-- A value is found and stays, one is looked for in vain, and a third takes the place of the
second. -/
def sampleCalls : List (Call Nat Nat) := [.put 1 10, .put 2 20, .get 1, .get 9, .put 3 30]

/-- Two values are kept: the second key is given up, since two others were used after it. -/
theorem get_eq_lastPut_third :
    (ofCapacity 2).respondAll sampleCalls =
        ([(.put 1 10, none), (.put 2 20, none), (.get 1, some 10), (.get 9, none),
            (.put 3 30, none)],
          ⟨2, [(3, 30), (1, 10)], 1, 1, 2⟩) ∧
      ((⟨2, [(3, 30), (1, 10)], 1, 1, 2⟩ : Cache Nat Nat).get 2).1 = none ∧
      ((⟨2, [(3, 30), (1, 10)], 1, 1, 2⟩ : Cache Nat Nat).get 1).1 = some 10 := by
  have hrun : (ofCapacity 2).respondAll sampleCalls =
      ([(.put 1 10, none), (.put 2 20, none), (.get 1, some 10), (.get 9, none), (.put 3 30, none)],
        ⟨2, [(3, 30), (1, 10)], 1, 1, 2⟩) := rfl
  obtain ⟨-, hget, -⟩ := get_eq_lastPut 2 hrun
  refine ⟨hrun, ?_, ?_⟩
  · rw [hget]
    decide
  · rw [hget]
    decide

end Concordance.Cache
