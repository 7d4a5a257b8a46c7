import Fifo.Queue

/-!
# First in, first out

Whatever is asked of a queue, and in whatever order, its values leave in the order in which they
entered and none is lost or made up: what it held at first and what entered since is what has left
and what it holds now (`toList_history`).  One request keeps this up (`toList_serve`), be it refused
or not, and so does every history of requests.

Requests that only look are tied to those that take: they show what would be taken next.
-/

namespace Fifo
namespace Queue

variable {α : Type}

/-- What can be asked of a queue. -/
inductive Request (α : Type) where
  | push (v : α)
  | append (vs : List α)
  | pop
  | popTwo
  | drain
  | first
  | firstTwo
  | length
  | isEmpty
  deriving DecidableEq

/-- What a queue answers. -/
inductive Answer (α : Type) where
  /-- There is nothing to answer. -/
  | done
  /-- These values have left the queue, the first of them first. -/
  | taken (vs : List α)
  /-- These values are in front, and stay there. -/
  | shown (vs : List α)
  | counted (n : Nat)
  | told (b : Bool)
  /-- There are too few values. -/
  | refused (f : Fault)
  deriving DecidableEq

/-- The values that enter a queue by a request. -/
def Request.entering : Request α → List α
  | push v => [v]
  | append vs => vs
  | pop | popTwo | drain | first | firstTwo | length | isEmpty => []

/-- The values that have left a queue with an answer. -/
def Answer.leaving : Answer α → List α
  | taken vs => vs
  | done | shown _ | counted _ | told _ | refused _ => []

/-- Serves a request: the queue that is left, and the answer. -/
def serve (q : Queue α) : Request α → Queue α × Answer α
  | .push v => (q.push v, .done)
  | .append vs => (q.append vs, .done)
  | .pop => match q.pop with
    | (.ok a, rest) => (rest, .taken [a])
    | (.error f, rest) => (rest, .refused f)
  | .popTwo => match q.popTwo with
    | (.ok (a, b), rest) => (rest, .taken [a, b])
    | (.error f, rest) => (rest, .refused f)
  | .drain => match q.drain with
    | (vs, rest) => (rest, .taken vs)
  | .first => match q.first with
    | .ok a => (q, .shown [a])
    | .error f => (q, .refused f)
  | .firstTwo => match q.firstTwo with
    | .ok (a, b) => (q, .shown [a, b])
    | .error f => (q, .refused f)
  | .length => (q, .counted q.length)
  | .isEmpty => (q, .told q.isEmpty)

/-- Serves one request after another: the queue that is left, and the answers in order. -/
def history (q : Queue α) : List (Request α) → Queue α × List (Answer α)
  | [] => (q, [])
  | r :: requests =>
      let served := q.serve r
      let later := served.1.history requests
      (later.1, served.2 :: later.2)

@[simp] theorem history_nil (q : Queue α) : q.history [] = (q, []) := rfl

@[simp] theorem history_cons (q : Queue α) (r : Request α) (requests : List (Request α)) :
    q.history (r :: requests) =
      (((q.serve r).1.history requests).1, (q.serve r).2 :: ((q.serve r).1.history requests).2) :=
  rfl

/-- A request conserves the values and their order: those that leave stood in front of all that
stay, and those that enter stand behind them. -/
theorem toList_serve (q : Queue α) (r : Request α) :
    q.toList ++ r.entering = (q.serve r).2.leaving ++ (q.serve r).1.toList := by
  cases r with
  | push v => exact (toList_push q v).symm
  | append vs => exact (toList_append q vs).symm
  | pop =>
      rcases q.pop_cases with ⟨-, hpop⟩ | ⟨a, rest, hlist, hpop⟩
      · rw [serve, hpop]
        exact List.append_nil _
      · rw [serve, hpop, hlist]
        exact List.append_nil _
  | popTwo =>
      rcases q.two_cases with ⟨-, hpop, -⟩ | ⟨a, b, rest, hlist, hpop, -⟩
      · rw [serve, hpop]
        exact List.append_nil _
      · rw [serve, hpop, hlist]
        exact List.append_nil _
  | drain => rfl
  | first =>
      simp only [serve]
      cases q.first <;> exact List.append_nil _
  | firstTwo =>
      simp only [serve]
      cases q.firstTwo <;> exact List.append_nil _
  | length => exact List.append_nil _
  | isEmpty => exact List.append_nil _

/-- So does every history of requests. -/
theorem toList_history (q : Queue α) (requests : List (Request α)) :
    q.toList ++ requests.flatMap Request.entering =
      (q.history requests).2.flatMap Answer.leaving ++ (q.history requests).1.toList := by
  induction requests generalizing q with
  | nil => simp
  | cons r requests ih =>
      rw [history_cons, List.flatMap_cons, List.flatMap_cons]
      calc q.toList ++ (r.entering ++ requests.flatMap Request.entering)
          = (q.toList ++ r.entering) ++ requests.flatMap Request.entering :=
            (List.append_assoc _ _ _).symm
        _ = (q.serve r).2.leaving ++
              ((q.serve r).1.toList ++ requests.flatMap Request.entering) := by
            rw [toList_serve, List.append_assoc]
        _ = _ := by rw [ih, List.append_assoc]

theorem pop_eq_error_iff (q rest : Queue α) (f : Fault) :
    q.pop = (.error f, rest) ↔ q.length = 0 ∧ f = .of .notEnoughArguments ∧ rest = q := by
  rw [← length_toList, List.length_eq_zero_iff]
  constructor
  · exact pop_of_error
  · rintro ⟨hnil, rfl, rfl⟩
    exact pop_of_nil hnil

theorem popTwo_eq_error_iff (q rest : Queue α) (f : Fault) :
    q.popTwo = (.error f, rest) ↔ q.length < 2 ∧ f = .of .notEnoughArguments ∧ rest = q := by
  constructor
  · exact popTwo_of_error
  · rintro ⟨hshort, rfl, rfl⟩
    exact if_pos ((isShort_iff _).mpr hshort)

/-- Looking shows what would be taken, or fails as taking would. -/
theorem first_eq_pop (q : Queue α) : q.first = q.pop.1 := by
  rw [first_eq]
  rcases q.pop_cases with ⟨hnil, hpop⟩ | ⟨a, rest, hlist, hpop⟩
  · rw [hnil, hpop]
  · rw [hlist, hpop]

theorem firstTwo_eq_popTwo (q : Queue α) : q.firstTwo = q.popTwo.1 := by
  rcases q.two_cases with ⟨-, hpop, hfirst⟩ | ⟨a, b, rest, -, hpop, hfirst⟩
  · rw [hpop, hfirst]
  · rw [hpop, hfirst]

theorem serve_first (q : Queue α) : (q.serve .first).1 = q := by
  simp only [serve]
  cases q.first <;> rfl

theorem serve_firstTwo (q : Queue α) : (q.serve .firstTwo).1 = q := by
  simp only [serve]
  cases q.firstTwo <;> rfl

/-- A queue that refuses a request stays as it is. -/
theorem serve_of_refused {q : Queue α} {r : Request α} {f : Fault}
    (h : (q.serve r).2 = .refused f) : (q.serve r).1 = q := by
  cases r with
  | push v => cases h
  | append vs => cases h
  | pop =>
      rcases q.pop_cases with ⟨-, hpop⟩ | ⟨a, rest, -, hpop⟩
      · rw [serve, hpop]
      · rw [serve, hpop] at h
        cases h
  | popTwo =>
      rcases q.two_cases with ⟨-, hpop, -⟩ | ⟨a, b, rest, -, hpop, -⟩
      · rw [serve, hpop]
      · rw [serve, hpop] at h
        cases h
  | drain => cases h
  | first => exact serve_first q
  | firstTwo => exact serve_firstTwo q
  | length => cases h
  | isEmpty => cases h

/-- **A queue is first in, first out.**  For every queue and every history of requests, what it held
at first, followed by what has entered since, is what has left, followed by what it holds in the
end: each in order.  Taking one value fails exactly if there is none, taking two exactly if there
are fewer than two; the fault says that there are too few, and the queue is left as it was, as it is
by every request that is refused.  Looking at the value in front, or at the two, gives exactly what
taking would give, and takes nothing. -/
theorem first_in_first_out :
    (∀ (q : Queue α) (requests : List (Request α)),
      q.toList ++ requests.flatMap Request.entering =
        (q.history requests).2.flatMap Answer.leaving ++ (q.history requests).1.toList) ∧
    (∀ (q rest : Queue α) (f : Fault),
      (q.pop = (.error f, rest) ↔
        q.length = 0 ∧ f = .of .notEnoughArguments ∧ rest = q) ∧
      (q.popTwo = (.error f, rest) ↔
        q.length < 2 ∧ f = .of .notEnoughArguments ∧ rest = q)) ∧
    (∀ (q : Queue α) (r : Request α) (f : Fault),
      (q.serve r).2 = .refused f → (q.serve r).1 = q) ∧
    ∀ q : Queue α,
      q.first = q.pop.1 ∧ q.firstTwo = q.popTwo.1 ∧
      (q.serve .first).1 = q ∧ (q.serve .firstTwo).1 = q := by
  refine ⟨toList_history, fun q rest f => ⟨q.pop_eq_error_iff rest f, q.popTwo_eq_error_iff rest f⟩,
    fun q r f => serve_of_refused, fun q => ?_⟩
  exact ⟨q.first_eq_pop, q.firstTwo_eq_popTwo, q.serve_first, q.serve_firstTwo⟩

/-- Requests of every kind, the first of which asks a queue of one value for two. -/
def variedRequests : List (Request Nat) :=
  [.popTwo, .append [2, 3], .firstTwo, .pop, .push 4, .popTwo, .drain, .pop, .isEmpty]

theorem first_in_first_out_varied :
    ((ofList [1]).serve .popTwo).2 = .refused (.of .notEnoughArguments) ∧
      ((ofList [1]).serve .popTwo).1 = ofList [1] ∧
      ((ofList [1]).history variedRequests).2 =
        [.refused (.of .notEnoughArguments), .done, .shown [1, 2], .taken [1], .done,
          .taken [2, 3], .taken [4], .refused (.of .notEnoughArguments), .told true] ∧
      [1] ++ variedRequests.flatMap Request.entering =
        [1, 2, 3, 4] ++ ((ofList [1]).history variedRequests).1.toList := by
  obtain ⟨hconserved, hfails, hkept, -⟩ := @first_in_first_out Nat
  have hpop : (ofList [1]).popTwo = (.error (.of .notEnoughArguments), ofList [1]) :=
    (hfails (ofList [1]) _ _).2.mpr ⟨by decide, rfl, rfl⟩
  have hrefused : ((ofList [1]).serve .popTwo).2 = .refused (.of .notEnoughArguments) := by
    rw [serve, hpop]
  have hanswers : ((ofList [1]).history variedRequests).2 =
      [.refused (.of .notEnoughArguments), .done, .shown [1, 2], .taken [1], .done,
        .taken [2, 3], .taken [4], .refused (.of .notEnoughArguments), .told true] := by
    decide
  refine ⟨hrefused, hkept _ _ _ hrefused, hanswers, ?_⟩
  have hall := hconserved (ofList [1]) variedRequests
  rw [hanswers, toList_ofList] at hall
  exact hall

end Queue
end Fifo
