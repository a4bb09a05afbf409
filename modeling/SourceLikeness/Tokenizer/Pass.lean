import SourceLikeness.Category
import SourceLikeness.Pattern.Search
import SourceLikeness.WorkingCopy

/-!
# Passes over the working copy

* `erase` : overwrites every hit of a finder and records nothing. The cells stay unclaimed, so that
  a literal inside a loop header does not keep the header from becoming a token;
* `classify` : records a token for every hit that touches no claimed cell, and claims it.

The passes that need more than a finder each have a module of their own.
-/

namespace SourceLikeness.Tokenizer

abbrev Work := WorkingCopy Category

def erase (f : Finder) (fill : Char) (w : Work) : Work :=
  (f.hits w.text).foldl (fun w hit => w.overwrite hit.whole fill) w

/-- Records the token of a hit. If it swallows, the whole hit is claimed and not only the token. -/
def classifyHit (category : Category) (fill : Char) (swallows : Bool) (w : Work) (hit : Hit) : Work :=
  if w.admits hit.token then
    let w := w.take category hit.token fill
    if swallows then w.claim hit.whole fill else w
  else w

/-- Records the tokens of the hits that touch no claimed cell. -/
def classify (f : Finder) (category : Category) (fill : Char) (swallows : Bool) (w : Work) : Work :=
  (f.hitsWhere (fun hit => !w.isClaimed hit.token) w.text).foldl
    (classifyHit category fill swallows) w

end SourceLikeness.Tokenizer
