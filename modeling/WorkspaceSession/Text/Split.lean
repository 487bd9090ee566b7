/-
Cutting a sequence at separators.

Paths, hosts and URL paths are all sequences of parts between separators. There is always one part
more than there are separators, so an empty sequence is one empty part, and the parts with the
separators put back between them give the sequence again.
-/

set_option autoImplicit false

namespace WorkspaceSession.Text

variable {α : Type}

/-- The parts of a sequence between the elements that satisfy `isSeparator`. -/
def splitWhere (isSeparator : α → Bool) : List α → List (List α)
  | [] => [[]]
  | a :: rest =>
    if isSeparator a then [] :: splitWhere isSeparator rest
    else
      match splitWhere isSeparator rest with
      | [] => [[a]]
      | part :: more => (a :: part) :: more

/-- What precedes the last element that satisfies `p`, and what follows it. -/
def splitAtLast? (p : α → Bool) (l : List α) : Option (List α × List α) :=
  let tail := l.reverse.takeWhile fun a => !p a
  match l.reverse.drop tail.length with
  | [] => none
  | _ :: front => some (front.reverse, tail.reverse)

end WorkspaceSession.Text
