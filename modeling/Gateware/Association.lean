/-!
# Associations

A finite map kept as a list of pairs with distinct keys, in the order in which the
keys were first put.
-/

set_option autoImplicit false

namespace Gateware

variable {α β : Type} [DecidableEq α]

abbrev Association (α β : Type) := List (α × β)

namespace Association

def at? : Association α β → α → Option β
  | [], _ => none
  | pair :: rest, key => if pair.1 = key then some pair.2 else at? rest key

def put : Association α β → α → β → Association α β
  | [], key, value => [(key, value)]
  | pair :: rest, key, value =>
      if pair.1 = key then (key, value) :: rest else pair :: put rest key value

theorem at?_put_self (map : Association α β) (key : α) (value : β) :
    (map.put key value).at? key = some value := by
  induction map with
  | nil => simp [put, at?]
  | cons pair rest ih =>
      by_cases same : pair.1 = key
      · simp [put, at?, same]
      · simp [put, at?, same, ih]

theorem at?_put_other (map : Association α β) {key other : α} (value : β)
    (different : other ≠ key) : (map.put key value).at? other = map.at? other := by
  induction map with
  | nil => simp [put, at?, Ne.symm different]
  | cons pair rest ih =>
      by_cases same : pair.1 = key
      · simp [put, at?, same, Ne.symm different]
      · simp [put, at?, same, ih]

end Association

end Gateware
