import SourceLikeness.Tokenizer.Pass

/-!
# Compound assignments

`x += y` assigns and computes: a marker for the assignment, then the token of the operator.
-/

namespace SourceLikeness.Tokenizer.CompoundAssignment
open Pattern

def bitOperators : List String := ["<<", ">>", "&", "^", "|"]

/-- An operator directly before an equals sign. -/
def compound : Pattern :=
  all [part .token (any (["<<", ">>", "**", "//", "&", "^", "|", "+", "-", "*", "/", "%"].map text)),
    text "="]

def category (operator : List Char) : Category :=
  if bitOperators.any (·.toList == operator) then .shift else .math

/-- Records one compound assignment, unless it is claimed or the sign belongs to a comparison. -/
def applyHit (w : Work) (hit : Hit) : Work :=
  if w.isClaimed hit.whole || w.text[hit.whole.stop]? == some '=' then w
  else
    let category := category (hit.token.slice w.text)
    let w := w.mark .assign hit.whole.start
    let w := w.take category hit.token WorkingCopy.operator
    w.claim hit.whole WorkingCopy.operator

def apply (w : Work) : Work := (compound.readings w.text).foldl applyHit w

end SourceLikeness.Tokenizer.CompoundAssignment
