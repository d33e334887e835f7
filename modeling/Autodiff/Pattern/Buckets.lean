/-!
# Buckets

Elements sorted into buckets by a number, in one pass. The bucket of a number holds the elements
with that number in their order, as `buckets_eq` says.
-/

namespace Autodiff

variable {α : Type}

/-- Puts every element in front of the bucket with its number, last element first. -/
def fillBuckets (count : Nat) (key : α → Nat) (elements : List α) : Array (List α) :=
  elements.foldr (fun element filled => filled.modify (key element) (element :: ·))
    (Array.replicate count [])

/-- For every number below `count` the elements with that number. -/
def buckets (count : Nat) (key : α → Nat) (elements : List α) : List (List α) :=
  (fillBuckets count key elements).toList

theorem getElem?_fillBuckets (count : Nat) (key : α → Nat) (elements : List α) (number : Nat) :
    (fillBuckets count key elements)[number]? =
      if number < count then some (elements.filter fun element => key element == number)
      else none := by
  induction elements with
  | nil => simp [fillBuckets, Array.getElem?_replicate]
  | cons element elements ih =>
    have filled : fillBuckets count key (element :: elements) =
        (fillBuckets count key elements).modify (key element) (element :: ·) := rfl
    rw [filled, Array.getElem?_modify, ih]
    by_cases inside : number < count <;> by_cases same : key element = number <;>
      simp [inside, same]

theorem buckets_eq (count : Nat) (key : α → Nat) (elements : List α) :
    buckets count key elements =
      (List.range count).map fun number =>
        elements.filter fun element => key element == number := by
  apply List.ext_getElem?
  intro number
  rw [buckets, Array.getElem?_toList, getElem?_fillBuckets, List.getElem?_map]
  by_cases inside : number < count
  · rw [if_pos inside, List.getElem?_range inside, Option.map_some]
  · rw [if_neg inside, List.getElem?_eq_none (by simpa using Nat.le_of_not_lt inside),
      Option.map_none]

end Autodiff
