import RespProxy.Proxy.Handle

/-! # The array behind `EXEC`

The backend answers `EXEC` with an array for the commands that were sent; the
answers to `SELECT` are put in between (`mergeExecReply`). The loop has one
index for the items and another for the backend's array, which moves on at the
items that were sent. So the items of each kind get their own answers, in order.
-/

namespace RespProxy.Proxy

open Cluster Command Resp

variable {items : List ExecItem} {vs out : List Value}

/-- The item was sent to the backend. -/
def ExecItem.sent : ExecItem → Bool
  | .here _ => false
  | .send _ => true

/-- The loop of `mergeExecReply`, with its index `bi` into the backend's array. -/
def mergeLoop (vs : List Value) : (bi : Nat) → List ExecItem → List Value
  | _, [] => []
  | bi, .here v :: items => v :: mergeLoop vs bi items
  | bi, .send _ :: items =>
    match vs[bi]? with
    | some v => v :: mergeLoop vs (bi + 1) items
    | none => error "ERR EXEC reply missing" :: mergeLoop vs bi items

/-- The index is the number of answers that were used. -/
theorem mergeLoop_eq (vs : List Value) (bi : Nat) (items : List ExecItem) :
    mergeLoop vs bi items = mergeItems items (vs.drop bi) := by
  induction items generalizing bi with
  | nil => rfl
  | cons it items ih =>
    cases it with
    | here v => rw [mergeLoop, mergeItems, ih]
    | send f =>
      rw [mergeLoop]
      -- the test `bi < len(v.Values)`
      cases hv : vs[bi]? with
      | some v =>
        have hdrop : vs.drop bi = v :: vs.drop (bi + 1) := by
          obtain ⟨hlt, rfl⟩ := List.getElem?_eq_some_iff.1 hv
          exact List.drop_eq_getElem_cons hlt
        rw [hdrop, mergeItems]
        exact congrArg _ (ih (bi + 1))
      | none =>
        have hdrop : vs.drop bi = [] := List.drop_eq_nil_iff.2 (List.getElem?_eq_none_iff.1 hv)
        have hrest := ih bi
        rw [hdrop] at hrest ⊢
        rw [mergeItems]
        exact congrArg _ hrest

/-! ## The two subsequences -/

/-- The values at the places of the items that were sent. -/
def atSent (items : List ExecItem) (out : List Value) : List Value :=
  ((items.zip out).filter fun x => x.1.sent).map Prod.snd

/-- The values at the places of the items that were answered here. -/
def atHere (items : List ExecItem) (out : List Value) : List Value :=
  ((items.zip out).filter fun x => !x.1.sent).map Prod.snd

/-- The answers given here. -/
def hereAnswers : List ExecItem → List Value
  | [] => []
  | .here v :: items => v :: hereAnswers items
  | .send _ :: items => hereAnswers items

theorem length_mergeItems (items : List ExecItem) (vs : List Value) :
    (mergeItems items vs).length = items.length := by
  induction items generalizing vs with
  | nil => rfl
  | cons it items ih =>
    cases it with
    | here v => rw [mergeItems, List.length_cons, List.length_cons, ih]
    | send f => cases vs <;> rw [mergeItems, List.length_cons, List.length_cons, ih]

/-- The answers given here are in their places, whatever the backend says. -/
theorem atHere_mergeItems (items : List ExecItem) (vs : List Value) :
    atHere items (mergeItems items vs) = hereAnswers items := by
  induction items generalizing vs with
  | nil => rfl
  | cons it items ih =>
    cases it with
    | here v => exact congrArg (v :: ·) (ih vs)
    | send f =>
      cases vs with
      | nil => exact ih []
      | cons v vs => exact ih vs

/-- The backend's array is used up at the items that were sent. -/
theorem atSent_mergeItems (h : vs.length = items.countP ExecItem.sent) :
    atSent items (mergeItems items vs) = vs := by
  induction items generalizing vs with
  | nil => exact (List.length_eq_zero_iff.1 h).symm
  | cons it items ih =>
    cases it with
    | here v =>
      rw [List.countP_cons_of_neg (by simp [ExecItem.sent])] at h
      exact ih h
    | send f =>
      rw [List.countP_cons_of_pos rfl] at h
      cases vs with
      | nil => cases h
      | cons v vs => exact congrArg (v :: ·) (ih (Nat.succ.inj h))

/-- **The merged array.** For an array of the backend with one answer for each item that was sent,
the reply is an array with one value for each item; at the items that were sent these are the
backend's, in order, and at the others the answers given here, in order. -/
theorem mergeExecReply_keeps_order (items : List ExecItem) {v : Value} (harray : v.type = .array)
    (hnull : v.null = false) (hlen : v.values.length = items.countP ExecItem.sent) :
    ∃ out, mergeExecReply items v = array out ∧ out = mergeLoop v.values 0 items ∧
      out.length = items.length ∧ atSent items out = v.values ∧
      atHere items out = hereAnswers items := by
  have hloop : mergeLoop v.values 0 items = mergeItems items v.values := mergeLoop_eq v.values 0 items
  refine ⟨mergeItems items v.values, ?_, hloop.symm, length_mergeItems items v.values,
    atSent_mergeItems hlen, atHere_mergeItems items v.values⟩
  rw [mergeExecReply, if_neg]
  rintro (htype | htrue)
  · exact htype harray
  · rw [hnull] at htrue
    cases htrue

/-- `SELECT`, a command, `SELECT` of a database that there is not, a command. -/
def mixedItems : List ExecItem :=
  [.here plusOK, .send { argv := [arg "INCR", arg "n"], src := .refresh },
    .here (error "ERR DB index is out of range"),
    .send { argv := [arg "GET", arg "n"], src := .refresh }]

theorem mergeExecReply_keeps_order_mixed :
    mergeExecReply mixedItems (array [integer 1, bulkString (arg "1")]) =
      array [plusOK, integer 1, error "ERR DB index is out of range", bulkString (arg "1")] ∧
    ∃ out, mergeExecReply mixedItems (array [integer 1, bulkString (arg "1")]) = array out ∧
      atSent mixedItems out = [integer 1, bulkString (arg "1")] := by
  refine ⟨rfl, ?_⟩
  obtain ⟨out, hout, -, -, hsent, -⟩ := mergeExecReply_keeps_order mixedItems
    (v := array [integer 1, bulkString (arg "1")]) rfl rfl rfl
  exact ⟨out, hout, hsent⟩

end RespProxy.Proxy
