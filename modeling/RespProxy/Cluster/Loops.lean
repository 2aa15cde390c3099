import RespProxy.Cluster.Slot
import RespProxy.Lib.Scan

/-! # The scanners of `internal/cluster/slot.go`, loop by loop

`HashTag`, `ParseRedirect` and `atoi16` walk over their input with indexes, and `atoi16`
stops as soon as its sum is too large. The definitions in `Slot` say what they return;
here they are as written, with the 64-bit sums of `atoi16`.

* `Tagged`: the split of a key at its hash tag, `hashTagLoop_eq`;
* `parseRedirectLoop_iff`: the grammar of redirects.
-/

namespace RespProxy.Cluster

open Resp

/-! ## Hash tags -/

/-- `HashTag`. -/
def hashTagLoop (key : Bytes) (openTag closeTag : UInt8) : Bytes :=
  let start := Scan.find (fun b => decide (b = openTag)) key 0
  if start ≥ key.length then key
  else
    let i := Scan.find (fun b => decide (b = closeTag)) key (start + 1)
    if i ≥ key.length ∨ i = start + 1 then key else Scan.slice key (start + 1) i

/-- The key has the hash tag `t`: the first opening delimiter stands in front of it, and the next
closing one behind it. -/
def Tagged (key : Bytes) (openTag closeTag : UInt8) (t : Bytes) : Prop :=
  ∃ pre post, key = pre ++ openTag :: (t ++ closeTag :: post) ∧ openTag ∉ pre ∧ closeTag ∉ t ∧ t ≠ []

variable {key t : Bytes} {openTag closeTag : UInt8}
variable {n : Nat} {b c : UInt8}

theorem passes_of_not_mem {l : Bytes} (h : b ∉ l) :
    ∀ x ∈ l, (!decide (x = b)) = true := by
  intro x hx
  have hne : x ≠ b := by
    rintro rfl
    exact h hx
  simp [hne]

/-- A loop that looks for a byte passes over what is in front of it. -/
theorem takeWhile_ne {pre post : Bytes} (h : b ∉ pre) :
    (pre ++ b :: post).takeWhile (fun x => !decide (x = b)) = pre := by
  rw [List.takeWhile_append_of_pos (passes_of_not_mem h), List.takeWhile_cons_of_neg (by simp),
    List.append_nil]

theorem takeWhile_absent {l : Bytes} (h : b ∉ l) :
    l.takeWhile (fun x => !decide (x = b)) = l :=
  List.takeWhile_eq_self_iff.2 (passes_of_not_mem h)

/-- A byte is in a list or not; if it is, there is a first one. -/
theorem first_occurrence (b : UInt8) (l : Bytes) :
    b ∉ l ∨ ∃ pre post, l = pre ++ b :: post ∧ b ∉ pre := by
  by_cases h : b ∈ l
  · exact .inr (List.eq_append_cons_of_mem h)
  · exact .inl h

/-- The loops on a key with an opening delimiter. -/
theorem hashTagLoop_open {pre rest : Bytes} (hpre : openTag ∉ pre) :
    hashTagLoop (pre ++ openTag :: rest) openTag closeTag =
      if (rest.takeWhile fun x => !decide (x = closeTag)).length = rest.length ∨
          rest.takeWhile (fun x => !decide (x = closeTag)) = [] then pre ++ openTag :: rest
      else rest.takeWhile fun x => !decide (x = closeTag) := by
  have hstart : Scan.find (fun b => decide (b = openTag)) (pre ++ openTag :: rest) 0 = pre.length := by
    rw [Scan.find_zero, takeWhile_ne hpre]
  have hsplit : pre ++ openTag :: rest = (pre ++ [openTag]) ++ rest := by simp
  have hlen : pre.length + 1 = (pre ++ [openTag]).length := by simp
  have hle : (rest.takeWhile fun x => !decide (x = closeTag)).length ≤ rest.length :=
    (List.takeWhile_prefix _).length_le
  have hend : Scan.find (fun b => decide (b = closeTag)) (pre ++ openTag :: rest) (pre.length + 1) =
      pre.length + 1 + (rest.takeWhile fun x => !decide (x = closeTag)).length := by
    rw [hsplit, hlen, Scan.find_append]
  have hslice := Scan.slice_find (p := fun b => decide (b = closeTag)) (pre ++ [openTag]) rest
  rw [← hsplit, ← hlen, hend] at hslice
  have htotal : (pre ++ openTag :: rest).length = pre.length + 1 + rest.length := by
    rw [hsplit, List.length_append, ← hlen]
  unfold hashTagLoop
  dsimp only
  rw [hstart, if_neg (by omega), hend, hslice, htotal]
  -- the comparisons of indexes are comparisons of lengths
  refine if_congr (or_congr ⟨fun h => by omega, fun h => by omega⟩ ?_) rfl rfl
  rw [← List.length_eq_zero_iff]
  omega

theorem hashTagLoop_of_tagged (h : Tagged key openTag closeTag t) :
    hashTagLoop key openTag closeTag = t := by
  obtain ⟨pre, post, rfl, hpre, ht, hne⟩ := h
  rw [hashTagLoop_open hpre, takeWhile_ne ht, if_neg]
  rintro (hlen | hnil)
  · rw [List.length_append, List.length_cons] at hlen
    omega
  · exact hne hnil

theorem hashTagLoop_of_untagged (h : ∀ t, ¬ Tagged key openTag closeTag t) :
    hashTagLoop key openTag closeTag = key := by
  rcases first_occurrence openTag key with hno | ⟨pre, rest, rfl, hpre⟩
  · have hend : Scan.find (fun b => decide (b = openTag)) key 0 = key.length := by
      rw [Scan.find_zero, takeWhile_absent hno]
    unfold hashTagLoop
    dsimp only
    rw [hend, if_pos (Nat.le_refl _)]
  · rw [hashTagLoop_open hpre, if_pos]
    rcases first_occurrence closeTag rest with hno | ⟨tag, post, rfl, htag⟩
    · exact .inl (by rw [takeWhile_absent hno])
    · right
      rw [takeWhile_ne htag]
      by_contra hne
      exact h tag ⟨pre, post, rfl, hpre, htag, hne⟩

/-- `hashTag` is what the loops return. -/
theorem hashTagLoop_eq (key : Bytes) (openTag closeTag : UInt8) :
    hashTagLoop key openTag closeTag = hashTag key openTag closeTag := by
  have hnot : ∀ b : UInt8, (fun x => !decide (x = b)) = fun x => decide (x ≠ b) := by
    intro b
    funext x
    simp
  rcases first_occurrence openTag key with hno | ⟨pre, rest, rfl, hpre⟩
  · have hdrop : key.dropWhile (fun x => decide (x ≠ openTag)) = [] := by
      rw [← hnot]
      exact List.dropWhile_eq_nil_iff.2 (passes_of_not_mem hno)
    rw [hashTag, hdrop]
    refine hashTagLoop_of_untagged ?_
    rintro t ⟨pre, post, rfl, -⟩
    exact hno (by simp)
  · have hdrop : (pre ++ openTag :: rest).dropWhile (fun x => decide (x ≠ openTag)) =
        openTag :: rest := by
      rw [← hnot, List.dropWhile_append_of_pos (passes_of_not_mem hpre),
        List.dropWhile_cons_of_neg (by simp)]
    rw [hashTagLoop_open hpre, hashTag, hdrop]
    simp only [hnot]

/-! ## Redirects -/

/-- `n*10 + int(c-'0')`, before it wraps. -/
def digitSum (n : Int) (c : UInt8) : Int := n * 10 + ((c - 48).toNat : Int)

/-- The loop of `atoi16` on the digits behind a number `n`: the sums it computes, and the last
number unless it gives up. -/
def digitLoop : (n : Int) → Bytes → List Int × Option Int
  | n, [] => ([], some n)
  | n, c :: rest =>
    if c < 48 ∨ 57 < c then ([], none)
    else if Decimal.wrap64 (digitSum n c) ≥ (slotCount : Int) then ([digitSum n c], none)
    else
      (digitSum n c :: (digitLoop (Decimal.wrap64 (digitSum n c)) rest).1,
        (digitLoop (Decimal.wrap64 (digitSum n c)) rest).2)

/-- `atoi16`, with `uint16(n)` at the end. -/
def atoi16Loop (b : Bytes) : Option Nat :=
  if b.length = 0 then none else (digitLoop 0 b).2.map fun n => n.toNat % 2 ^ 16

/-- `ParseRedirect`. -/
def parseRedirectLoop (payload : Bytes) : Option Redirect :=
  let i := Scan.find (fun b => decide (b = 32)) payload 0
  if i = 0 ∨ i ≥ payload.length then none
  else
    let kind := payload.take i
    if kind ≠ lit "MOVED" ∧ kind ≠ lit "ASK" then none
    else
      let i := i + 1
      let j := Scan.find (fun b => decide (b = 32)) payload i
      if j ≤ i ∨ j ≥ payload.length then none
      else
        match atoi16Loop (Scan.slice payload i j) with
        | none => none
        | some slot =>
          if slot ≥ slotCount then none
          else
            let addr := payload.drop (j + 1)
            if addr.length = 0 then none
            else some { moved := decide (kind = lit "MOVED"), slot, addr := str addr }

theorem isDigit_iff : Decimal.isDigit c = true ↔ ¬ (c < 48 ∨ 57 < c) := by
  rw [Decimal.isDigit, decide_eq_true_eq, UInt8.lt_iff_toNat_lt, UInt8.lt_iff_toNat_lt]
  show 48 ≤ c.toNat ∧ c.toNat ≤ 57 ↔ ¬ (c.toNat < 48 ∨ 57 < c.toNat)
  omega

theorem toNat_sub_zero (h : Decimal.isDigit c = true) :
    (c - 48).toNat = c.toNat - 48 := by
  rw [Decimal.isDigit, decide_eq_true_eq] at h
  exact UInt8.toNat_sub_of_le _ _ (UInt8.le_iff_toNat_le.2 h.1)

/-- A sum of the loop, behind one that was small enough. -/
theorem digit_sum (hn : n < slotCount) (hc : Decimal.isDigit c = true) :
    digitSum n c = ((10 * n + (c.toNat - 48) : Nat) : Int) ∧
      10 * n + (c.toNat - 48) < 10 * slotCount := by
  have hlt := Decimal.digit_lt_ten hc
  rw [digitSum, toNat_sub_zero hc]
  omega

theorem wrap64_digit_sum {m : Nat} (hm : m < 10 * slotCount) : Decimal.wrap64 (m : Int) = m := by
  have hbound : m < 163840 := hm
  exact Decimal.wrap64_of_small (by omega) (by omega)

/-- **No sum of the digit loop overflows**: the loop gives up once a sum is too large, so the next
one is at most ten times as large. -/
theorem digitLoop_sums (hn : n < slotCount) (ds : Bytes) :
    ∀ sum ∈ (digitLoop n ds).1, 0 ≤ sum ∧ sum < 10 * slotCount := by
  induction ds generalizing n with
  | nil =>
    intro sum hsum
    cases hsum
  | cons c ds ih =>
    intro sum hsum
    rw [digitLoop] at hsum
    split at hsum
    · cases hsum
    · rename_i hc
      obtain ⟨heq, hlt⟩ := digit_sum hn (isDigit_iff.2 hc)
      have hsmall : ((10 * n + (c.toNat - 48) : Nat) : Int) < 10 * slotCount := by exact_mod_cast hlt
      rw [heq, wrap64_digit_sum hlt] at hsum
      split at hsum
      · rw [List.mem_singleton.1 hsum]
        exact ⟨Int.natCast_nonneg _, hsmall⟩
      · rename_i hstop
        rcases List.mem_cons.1 hsum with rfl | hsum
        · exact ⟨Int.natCast_nonneg _, hsmall⟩
        · exact ih (Int.ofNat_lt.1 (Int.not_le.1 hstop)) sum hsum

/-- Digits only make a number larger. -/
theorem le_foldl_digits (ds : Bytes) (n : Nat) :
    n ≤ ds.foldl (fun n d => 10 * n + (d.toNat - 48)) n := by
  induction ds generalizing n with
  | nil => exact Nat.le_refl n
  | cons d ds ih =>
    have hle := ih (10 * n + (d.toNat - 48))
    rw [List.foldl_cons]
    omega

/-- What the digit loop returns. -/
theorem digitLoop_result (hn : n < slotCount) (ds : Bytes) :
    (digitLoop n ds).2 =
      if ds.all Decimal.isDigit = true ∧
          ds.foldl (fun n d => 10 * n + (d.toNat - 48)) n < slotCount then
        some ((ds.foldl (fun n d => 10 * n + (d.toNat - 48)) n : Nat) : Int)
      else none := by
  induction ds generalizing n with
  | nil => simp [digitLoop, hn]
  | cons c ds ih =>
    rw [digitLoop]
    by_cases hc : Decimal.isDigit c = true
    · obtain ⟨heq, hlt⟩ := digit_sum hn hc
      rw [if_neg (isDigit_iff.1 hc), heq, wrap64_digit_sum hlt]
      by_cases hstop : 10 * n + (c.toNat - 48) < slotCount
      · rw [if_neg (Int.not_le.2 (Int.ofNat_lt.2 hstop))]
        dsimp only
        rw [ih hstop]
        simp [hc]
      · -- the digits that follow cannot make the number small again
        have hle := le_foldl_digits ds (10 * n + (c.toNat - 48))
        rw [if_pos (Int.ofNat_le.2 (Nat.not_lt.1 hstop)), if_neg]
        rintro ⟨-, hsum⟩
        exact hstop (Nat.lt_of_le_of_lt hle hsum)
    · rw [if_pos (by_contra fun h => hc (isDigit_iff.2 h)), if_neg]
      exact fun h => hc (List.all_eq_true.1 h.1 c List.mem_cons_self)

/-- `atoi16` is what the loop returns. -/
theorem atoi16Loop_eq (b : Bytes) : atoi16Loop b = atoi16 b := by
  have hresult := digitLoop_result (n := 0) (by decide) b
  rw [show b.foldl (fun n d => 10 * n + (d.toNat - 48)) 0 = Decimal.value b from rfl] at hresult
  rw [atoi16Loop, atoi16, Decimal.parseNat]
  by_cases hne : b = []
  · rw [if_pos (List.length_eq_zero_iff.2 hne), if_neg (fun h => h.1 hne)]
    rfl
  rw [if_neg (fun h => hne (List.length_eq_zero_iff.1 h)),
    show (digitLoop 0 b).2 = _ from hresult]
  by_cases hds : b.all Decimal.isDigit = true
  · rw [if_pos (show b ≠ [] ∧ b.all Decimal.isDigit = true from ⟨hne, hds⟩), Option.bind_some]
    by_cases hlt : Decimal.value b < slotCount
    · have hmod : (Decimal.value b : Int).toNat % 2 ^ 16 = Decimal.value b := by
        rw [Int.toNat_natCast]
        exact Nat.mod_eq_of_lt (Nat.lt_trans hlt (by decide))
      rw [if_pos ⟨hds, hlt⟩, if_pos hlt, Option.map_some, hmod]
    · rw [if_neg fun h => hlt h.2, if_neg hlt]
      rfl
  · rw [if_neg fun h => hds h.1, if_neg fun h => hds h.2]
    rfl

/-- A number is found for digits alone, and it is their value. -/
theorem atoi16_eq_some_iff {b : Bytes} :
    atoi16 b = some n ↔
      b ≠ [] ∧ (∀ d ∈ b, Decimal.isDigit d = true) ∧ Decimal.value b = n ∧ n < slotCount := by
  rw [atoi16, Decimal.parseNat]
  by_cases hb : b ≠ [] ∧ b.all Decimal.isDigit = true
  · rw [if_pos hb, Option.bind_some]
    have hds := List.all_eq_true.1 hb.2
    constructor
    · intro h
      split at h
      · rename_i hlt
        cases h
        exact ⟨hb.1, hds, rfl, hlt⟩
      · cases h
    · rintro ⟨-, -, rfl, hlt⟩
      exact if_pos hlt
  · rw [if_neg hb]
    refine iff_of_false (by simp) fun h => hb ⟨h.1, List.all_eq_true.2 h.2.1⟩

/-- The fields of a payload with two spaces. -/
theorem parseRedirectLoop_fields {kind digits addr : Bytes} (hkind : 32 ∉ kind)
    (hdigits : 32 ∉ digits) :
    parseRedirectLoop (kind ++ 32 :: (digits ++ 32 :: addr)) =
      if (kind = lit "MOVED" ∨ kind = lit "ASK") ∧ addr ≠ [] then
        (atoi16 digits).map fun slot =>
          { moved := decide (kind = lit "MOVED"), slot, addr := str addr }
      else none := by
  have hi : Scan.find (fun b => decide (b = 32)) (kind ++ 32 :: (digits ++ 32 :: addr)) 0 =
      kind.length := by
    rw [Scan.find_zero, takeWhile_ne hkind]
  have hsplit : kind ++ 32 :: (digits ++ 32 :: addr) =
      (kind ++ [32]) ++ (digits ++ 32 :: addr) := by simp
  have hlen : kind.length + 1 = (kind ++ [(32 : UInt8)]).length := by simp
  have hj : Scan.find (fun b => decide (b = 32)) (kind ++ 32 :: (digits ++ 32 :: addr))
      (kind.length + 1) = kind.length + 1 + digits.length := by
    rw [hsplit, hlen, Scan.find_append, takeWhile_ne hdigits]
  have hslice := Scan.slice_find (p := fun b => decide (b = (32 : UInt8))) (kind ++ [32])
    (digits ++ 32 :: addr)
  rw [← hsplit, ← hlen, hj, takeWhile_ne hdigits] at hslice
  have hdrop : (kind ++ 32 :: (digits ++ 32 :: addr)).drop (kind.length + 1 + digits.length + 1) =
      addr := by
    rw [show kind ++ 32 :: (digits ++ 32 :: addr) = (kind ++ 32 :: (digits ++ [32])) ++ addr by simp]
    refine List.drop_left' ?_
    simp only [List.length_append, List.length_cons, List.length_nil]
    omega
  have htotal : (kind ++ 32 :: (digits ++ 32 :: addr)).length =
      kind.length + 1 + digits.length + 1 + addr.length := by
    simp only [List.length_append, List.length_cons]
    omega
  unfold parseRedirectLoop
  dsimp only
  rw [hi, hj, hslice, hdrop, List.take_left, htotal, atoi16Loop_eq]
  by_cases hword : kind = lit "MOVED" ∨ kind = lit "ASK"
  · have hne : kind.length ≠ 0 := by
      rcases hword with rfl | rfl <;> decide
    rw [if_neg (by omega), if_neg (by tauto)]
    cases hslot : atoi16 digits with
    | none =>
      rw [Option.map_none, ite_self]
      split <;> rfl
    | some slot =>
      obtain ⟨hnil, -, -, hlt⟩ := atoi16_eq_some_iff.1 hslot
      have hpos := List.length_pos_iff.2 hnil
      rw [if_neg (by omega)]
      dsimp only
      rw [if_neg (Nat.not_le.2 hlt), Option.map_some]
      by_cases haddr : addr = []
      · rw [if_pos (List.length_eq_zero_iff.2 haddr), if_neg fun h => h.2 haddr]
      · rw [if_neg fun h => haddr (List.length_eq_zero_iff.1 h), if_pos ⟨hword, haddr⟩]
  · have hnone : ¬ ((kind = lit "MOVED" ∨ kind = lit "ASK") ∧ addr ≠ []) := fun h => hword h.1
    rw [if_neg hnone]
    split
    · rfl
    · rw [if_pos (by tauto)]

/-- A payload with fewer spaces is no redirect. -/
theorem parseRedirectLoop_short {payload : Bytes}
    (h : ∀ kind digits addr, payload = kind ++ 32 :: (digits ++ 32 :: addr) → 32 ∈ kind ∨ 32 ∈ digits) :
    parseRedirectLoop payload = none := by
  unfold parseRedirectLoop
  dsimp only
  rcases first_occurrence 32 payload with hno | ⟨kind, rest, rfl, hkind⟩
  · rw [Scan.find_zero, takeWhile_absent hno, if_pos (.inr (Nat.le_refl _))]
  · rcases first_occurrence 32 rest with hno | ⟨digits, addr, rfl, hdigits⟩
    · have hi : Scan.find (fun b => decide (b = 32)) (kind ++ 32 :: rest) 0 = kind.length := by
        rw [Scan.find_zero, takeWhile_ne hkind]
      have hj : Scan.find (fun b => decide (b = 32)) (kind ++ 32 :: rest) (kind.length + 1) =
          (kind ++ 32 :: rest).length := by
        have hfind := Scan.find_append (p := fun b => decide (b = (32 : UInt8)))
          (kind ++ [32]) rest
        rw [takeWhile_absent hno] at hfind
        simpa [Nat.add_assoc, Nat.add_comm 1] using hfind
      rw [hi, hj]
      -- the second loop runs to the end
      split
      · rfl
      · split
        · rfl
        · rw [if_pos (.inr (Nat.le_refl _))]
    · rcases h kind digits addr rfl with hin | hin
      · exact absurd hin hkind
      · exact absurd hin hdigits

/-- `parseRedirect` is what the loops return. -/
theorem parseRedirectLoop_eq (payload : Bytes) :
    parseRedirectLoop payload = parseRedirect payload := by
  have hnot : (fun x : UInt8 => decide (x ≠ 32)) = fun x => !decide (x = 32) := by
    funext x
    simp
  unfold parseRedirect
  rw [hnot]
  dsimp only
  rcases first_occurrence 32 payload with hno | ⟨kind, rest, rfl, hkind⟩
  · rw [parseRedirectLoop_short, takeWhile_absent hno,
      List.dropWhile_eq_nil_iff.2 (passes_of_not_mem hno)]
    · simp
    · rintro kind digits addr rfl
      exact absurd (by simp) hno
  · rw [takeWhile_ne hkind, List.dropWhile_append_of_pos (passes_of_not_mem hkind),
      List.dropWhile_cons_of_neg (by simp), List.drop_succ_cons, List.drop_zero]
    rcases first_occurrence 32 rest with hno | ⟨digits, addr, rfl, hdigits⟩
    · rw [parseRedirectLoop_short, List.dropWhile_eq_nil_iff.2 (passes_of_not_mem hno)]
      · simp
      · intro kind' digits addr heq
        by_contra hnone
        rw [not_or] at hnone
        -- the first space is the same in both
        have hfirst := congrArg (List.takeWhile fun x => !decide (x = 32)) heq
        rw [takeWhile_ne hkind, takeWhile_ne hnone.1] at hfirst
        subst hfirst
        have hrest := (List.cons.inj (List.append_cancel_left heq)).2
        exact hno (by simp [hrest])
    · rw [parseRedirectLoop_fields hkind hdigits, takeWhile_ne hdigits,
        List.dropWhile_append_of_pos (passes_of_not_mem hdigits),
        List.dropWhile_cons_of_neg (by simp), List.drop_succ_cons, List.drop_zero]
      by_cases hword : kind = lit "MOVED" ∨ kind = lit "ASK"
      · have hknown : ¬ (kind ≠ lit "MOVED" ∧ kind ≠ lit "ASK") := fun h => hword.elim h.1 h.2
        rw [if_neg hknown]
        by_cases haddr : addr = []
        · rw [if_pos haddr, if_neg fun h => h.2 haddr]
        · rw [if_neg haddr, if_pos ⟨hword, haddr⟩]
      · rw [if_pos (not_or.1 hword), if_neg fun h => hword h.1]

/-- The words of a redirect. -/
def redirectWord (moved : Bool) : Bytes := if moved then lit "MOVED" else lit "ASK"

/-- **The grammar of redirects.** A payload is parsed exactly if it is the word of its kind, a
space, digits, a space and an address, where the digits are a slot; and the loop over the digits
computes no sum outside the 64-bit integers, on any input. -/
theorem parseRedirectLoop_iff (payload ds : Bytes) (red : Redirect) :
    (parseRedirectLoop payload = some red ↔
      ∃ digits addr, payload = redirectWord red.moved ++ 32 :: (digits ++ 32 :: addr) ∧
        digits ≠ [] ∧ (∀ d ∈ digits, Decimal.isDigit d = true) ∧
        Decimal.value digits = red.slot ∧ red.slot < slotCount ∧
        addr ≠ [] ∧ red.addr = str addr) ∧
      ∀ sum ∈ (digitLoop 0 ds).1, -(2 ^ 63) ≤ sum ∧ sum < 2 ^ 63 := by
  refine ⟨⟨fun h => ?_, ?_⟩, fun sum hsum => ?_⟩
  · by_cases hshort : ∀ kind digits addr,
        payload = kind ++ 32 :: (digits ++ 32 :: addr) → 32 ∈ kind ∨ 32 ∈ digits
    · rw [parseRedirectLoop_short hshort] at h
      cases h
    · simp only [not_forall, not_or] at hshort
      obtain ⟨kind, digits, addr, rfl, hkind, hdigits⟩ := hshort
      rw [parseRedirectLoop_fields hkind hdigits] at h
      split at h
      · rename_i hfields
        obtain ⟨slot, hslot, rfl⟩ := Option.map_eq_some_iff.1 h
        obtain ⟨hne, hds, hvalue, hlt⟩ := atoi16_eq_some_iff.1 hslot
        refine ⟨digits, addr, ?_, hne, hds, hvalue, hlt, hfields.2, rfl⟩
        rcases hfields.1 with rfl | rfl <;> rfl
      · cases h
  · rintro ⟨digits, addr, rfl, hne, hds, hvalue, hlt, haddr, hstr⟩
    obtain ⟨moved, slot, text⟩ := red
    have hspace : 32 ∉ digits := fun hin => absurd (hds 32 hin) (by decide)
    have hslot := atoi16_eq_some_iff.2 ⟨hne, hds, hvalue, hlt⟩
    dsimp only at hstr hslot ⊢
    subst hstr
    cases moved with
    | true =>
      rw [parseRedirectLoop_fields (by decide) hspace, if_pos ⟨.inl rfl, haddr⟩, hslot]
      rfl
    | false =>
      rw [parseRedirectLoop_fields (by decide) hspace, if_pos ⟨.inr rfl, haddr⟩, hslot]
      rfl
  · have hbound := digitLoop_sums (n := 0) (by decide) ds sum hsum
    have hlt : sum < 163840 := hbound.2
    omega

end RespProxy.Cluster
