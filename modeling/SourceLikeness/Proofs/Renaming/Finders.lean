import SourceLikeness.Proofs.Pattern.Hits
import SourceLikeness.Proofs.WorkingCopy.Twin
import SourceLikeness.Tokenizer.Pass

/-!
# Passes that need a finder only, over two texts

A pass whose finder is blind to all that a lexicon does not tell makes twins of twins, if what it writes over
leaves no part of a word that the lexicon has.

* `twin_erase`, `twin_erase_ones` : erasing with a character that belongs to no word, and with the digit of
  literals;
* `twin_classify` : recording tokens.
-/

namespace SourceLikeness.Tokenizer
open Text (inside Lexicon Margin IsBlot)
open WorkingCopy (Twin Step)
variable {x : Lexicon} {w w' : Work} {f : Finder} {fill : Char}

/-- The lexicon has nothing to lose, or the check holds. -/
def spares (x : Lexicon) (check : Bool) : Bool := decide (x = .plain) || check

theorem margin_token (hf : spares x f.firm = true) {accept : Hit → Bool} {s : List Char} {h : Hit}
    (hmem : h ∈ f.hitsWhere accept s) : Margin x s h.token := by
  rcases Bool.or_eq_true_iff.1 hf with hx | hf
  · exact Or.inl (of_decide_eq_true hx)
  · exact (Finder.token_of_mem hf hmem).margin

theorem margin_whole (hf : spares x (f.clean x.absent) = true) {accept : Hit → Bool} {s : List Char} {h : Hit}
    (habsent : ∀ c ∈ x.absent, c ∉ s) (hmem : h ∈ f.hitsWhere accept s) : Margin x s h.whole := by
  rcases Bool.or_eq_true_iff.1 hf with hx | hf
  · exact Or.inl (of_decide_eq_true hx)
  · exact (Finder.whole_of_mem hf habsent hmem).margin

theorem twin_erase (hx : x.WellFormed) (hf : f.blind x = true) (hclean : spares x (f.clean x.absent) = true)
    (hfill : IsBlot x fill) (h : Twin x w w') : Twin x (erase f fill w) (erase f fill w') := by
  have hhits : f.hits w.text = f.hits w'.text := Finder.hitsWhere_eq hx h.text hf
  unfold erase
  rw [← hhits]
  refine (Step.foldl (fun hit hmem v v' hv => ?_) h.step).toTwin
  exact hv.overwrite hx hfill (margin_whole hclean h.text.forward.absent hmem)

theorem twin_erase_ones (hx : x.WellFormed) (hf : f.blind x = true) (hends : f.pattern.ends = true)
    (hparts : f.pattern.partless = true) (h : Twin x w w') : Twin x (erase f '1' w) (erase f '1' w') := by
  have hhits : f.hits w.text = f.hits w'.text := Finder.hitsWhere_eq hx h.text hf
  have hpairs : ((f.hits w.text).map Hit.whole).Pairwise fun p q => p.stop ≤ q.start := by
    rw [List.pairwise_map]
    refine (f.pairwise_hitsWhere (fun _ => true) w.text).imp_of_mem fun hg _ hle => ?_
    rwa [Finder.resume_eq_stop hparts hg] at hle
  have hedge : ∀ p ∈ (f.hits w.text).map Hit.whole, p.start < p.stop → inside w.text p.stop = false := by
    intro p hp _
    obtain ⟨hit, hmem, rfl⟩ := List.mem_map.1 hp
    exact Finder.stop_of_mem hends hmem
  have hfold := h.foldl_ones hx hpairs hedge
  rw [List.foldl_map, List.foldl_map] at hfold
  unfold erase
  rw [← hhits]
  exact hfold

theorem step_classifyHit {s : List Char} {category : Category} {swallows : Bool} {hit : Hit} (hx : x.WellFormed)
    (hfill : IsBlot x fill) (htoken : Margin x s hit.token) (hwhole : swallows = true → Margin x s hit.whole)
    (h : Step x s w w') :
    Step x s (classifyHit category fill swallows w hit) (classifyHit category fill swallows w' hit) := by
  have htake := h.take hx hfill htoken category
  unfold classifyHit
  rw [← h.admits_eq]
  split_ifs with hadmits hswallows
  · exact htake.claim hx hfill (hwhole hswallows)
  · exact htake
  · exact h

theorem twin_classify {category : Category} {swallows : Bool} (hx : x.WellFormed) (hf : f.blind x = true)
    (hfirm : spares x f.firm = true) (hclean : swallows = true → spares x (f.clean x.absent) = true)
    (hfill : IsBlot x fill) (h : Twin x w w') :
    Twin x (classify f category fill swallows w) (classify f category fill swallows w') := by
  have haccept : (fun hit : Hit => !w.isClaimed hit.token) = fun hit => !w'.isClaimed hit.token :=
    funext fun hit => by rw [h.isClaimed_eq]
  unfold classify
  rw [← haccept, ← Finder.hitsWhere_eq hx h.text hf]
  refine (Step.foldl (fun hit hmem v v' hv => ?_) h.step).toTwin
  exact step_classifyHit hx hfill (margin_token hfirm hmem)
    (fun hs => margin_whole (hclean hs) h.text.forward.absent hmem) hv

end SourceLikeness.Tokenizer
