import Highlight.Proofs.Language.Tokens
import Highlight.Proofs.Worker.Scratch
import Mathlib.Data.List.Induction
import Mathlib.Data.List.Perm.Basic

/-! # What a full highlight shows

Styles are painted group by group, and a later style of a group takes the place of an earlier one of
its kind. What shows in the end can be read off the text directly: line by line and token by token,
the styles of the first group that holds the token's word, less those that are replaced. Tokens do
not overlap, so painting never takes from one token what was painted on another, and sorting by
offsets undoes the order of the groups.
-/

namespace Highlight

/-- The styles of a list that no later one of their kind replaces. -/
def Style.lasting : List Style → List Style
  | [] => []
  | style :: rest =>
    if rest.any (·.sameKind style) then lasting rest else style :: lasting rest

namespace Language

/-- The styles that show on a word: those of the first group that holds it. -/
def stylesFor (l : Language) (word : List Char) : List Style :=
  match l.groups.find? (·.contains word) with
  | none => []
  | some g => Style.lasting g.styles

/-- What shows on lines, token by token; the first line starts at `offset`. -/
def rangesOn (l : Language) (offset : Nat) : List (List Char) → List StyledRange
  | [] => []
  | line :: rest =>
    ((tokenize (isSeparator (some l)) (Text.lineContent line)).flatMap fun t =>
      (l.stylesFor t.text).map fun style => ⟨offset + t.start, offset + t.stop, style⟩) ++
      l.rangesOn (offset + line.length) rest

end Language

/-- What shows on a text in a language; nothing for plain text. -/
def rangesFor : Option Language → List Char → List StyledRange
  | none, _ => []
  | some l, text => l.rangesOn 0 (Text.lines text)

/-! ## Painting tokens that do not overlap -/

namespace Style

theorem sameKind_comm (a b : Style) : a.sameKind b = b.sameKind a := by
  cases a <;> cases b <;> rfl

theorem lasting_append (styles : List Style) (last : Style) :
    lasting (styles ++ [last]) = (lasting styles).filter (fun s => !s.sameKind last) ++ [last] := by
  induction styles with
  | nil => rfl
  | cons style styles ih =>
      simp only [List.cons_append, lasting, List.any_append, List.any_cons, List.any_nil,
        Bool.or_false]
      cases replaced : styles.any (·.sameKind style) with
      | true => simpa using ih
      | false => cases same : last.sameKind style <;> simp [ih, sameKind_comm style last, same]

end Style

/-- A token and the styles it is to get. -/
abbrev Job := Token × List Style

namespace Job

def spans (j : Job) : List Span :=
  j.2.map fun style => ⟨j.1.start, j.1.stop, style⟩

/-- What is left to see of the job's styles. -/
def shown (j : Job) : Job :=
  (j.1, Style.lasting j.2)

/-- Jobs that share no column. -/
def Apart (j k : Job) : Prop :=
  j.1.stop ≤ k.1.start ∨ k.1.stop ≤ j.1.start

end Job

namespace Span

theorem carve_apart {first last : Nat} {spans : List Span}
    (apart : ∀ s ∈ spans, s.stop ≤ first ∨ last ≤ s.start) (affects : Style → Bool) :
    carve first last affects spans = spans := by
  induction spans with
  | nil => rfl
  | cons s spans ih =>
      have rest := ih fun s' member => apart s' (List.mem_cons_of_mem s member)
      have kept : s.without first last = [s] := by
        rw [without, if_pos]
        simpa using apart s List.mem_cons_self
      simp only [carve, List.flatMap_cons, kept, ite_self] at rest ⊢
      rw [rest]
      rfl

theorem carve_job {t : Token} (ordered : t.start < t.stop) (affects : Style → Bool)
    (styles : List Style) :
    carve t.start t.stop affects (Job.spans (t, styles)) =
      Job.spans (t, styles.filter fun s => !affects s) := by
  induction styles with
  | nil => rfl
  | cons style styles ih =>
      have gone (style : Style) : without t.start t.stop ⟨t.start, t.stop, style⟩ = [] := by
        simp [without, ordered]
      simp only [Job.spans, carve, List.map_cons, List.flatMap_cons, gone] at ih ⊢
      rw [ih]
      cases hit : affects style <;> simp [hit]

/-- The styles of one job: of each kind the last one stays. -/
theorem paintAll_job {t : Token} (ordered : t.start < t.stop) {spans : List Span}
    (apart : ∀ s ∈ spans, s.stop ≤ t.start ∨ t.stop ≤ s.start) (styles : List Style) :
    paintAll spans (Job.spans (t, styles)) = spans ++ (Job.shown (t, styles)).spans := by
  induction styles using List.reverseRecOn with
  | nil => simp [paintAll, Job.spans, Job.shown, Style.lasting]
  | append_singleton styles last ih =>
      have kept := carve_apart apart (·.sameKind last)
      have carved := carve_job ordered (·.sameKind last) (Style.lasting styles)
      have step : paintAll spans (Job.spans (t, styles ++ [last])) =
          paint last t.start t.stop (paintAll spans (Job.spans (t, styles))) := by
        simp [paintAll, Job.spans]
      have split : carve t.start t.stop (·.sameKind last) (spans ++ (Job.shown (t, styles)).spans) =
          spans ++ Job.spans (t, (Style.lasting styles).filter fun s => !s.sameKind last) := by
        rw [carve, List.flatMap_append]
        exact congrArg₂ (· ++ ·) kept carved
      rw [step, ih, paint, split]
      simp [Job.shown, Job.spans, Style.lasting_append]

theorem paintAll_jobs {jobs : List Job} (apart : jobs.Pairwise Job.Apart)
    (ordered : ∀ j ∈ jobs, j.1.start < j.1.stop) {spans : List Span}
    (free : ∀ j ∈ jobs, ∀ s ∈ spans, s.stop ≤ j.1.start ∨ j.1.stop ≤ s.start) :
    paintAll spans (jobs.flatMap Job.spans) =
      spans ++ jobs.flatMap fun j => j.shown.spans := by
  induction jobs generalizing spans with
  | nil => simp [paintAll]
  | cons j jobs ih =>
      obtain ⟨first, later⟩ := List.pairwise_cons.mp apart
      have painted := paintAll_job (ordered j List.mem_cons_self) (free j List.mem_cons_self) j.2
      rw [List.flatMap_cons, paintAll, List.foldl_append]
      change paintAll (paintAll spans (Job.spans (j.1, j.2))) _ = _
      rw [painted, ih later fun k hk => ordered k (List.mem_cons_of_mem j hk)]
      · rw [List.flatMap_cons, List.append_assoc]
      · intro k hk s hs
        rcases List.mem_append.mp hs with old | new
        · exact free k (List.mem_cons_of_mem j hk) s old
        · obtain ⟨style, -, rfl⟩ := List.mem_map.mp new
          exact first k hk

end Span

/-! ## The jobs of a line -/

namespace Language

/-- The jobs for tokens, group by group: the order in which they are painted. -/
def queued (l : Language) (tokens : List Token) : List Job :=
  l.groups.zipIdx.flatMap fun (g, k) =>
    (tokens.filter fun t => l.taker? t.text = some k).map (·, g.styles)

/-- The jobs for tokens, token by token. -/
def taken (l : Language) (tokens : List Token) : List Job :=
  tokens.flatMap fun t => ((l.groups.find? (·.contains t.text)).map (t, ·.styles)).toList

theorem spansOf_eq (l : Language) (tokens : List Token) :
    l.spansOf tokens = (l.queued tokens).flatMap Job.spans := by
  simp only [spansOf, queued, List.flatMap_assoc, List.flatMap_map]
  rfl

theorem mem_taken {l : Language} {tokens : List Token} {j : Job} (h : j ∈ l.taken tokens) :
    j.1 ∈ tokens ∧ ∃ g ∈ l.groups, g.contains j.1.text = true ∧ j.2 = g.styles := by
  obtain ⟨t, member, ht⟩ := List.mem_flatMap.mp h
  obtain ⟨g, found, rfl⟩ := Option.map_eq_some_iff.mp (Option.mem_toList.mp ht)
  have holds := List.find?_some found
  exact ⟨member, g, List.mem_of_find?_eq_some found, holds, rfl⟩

end Language

/-- Of all indexed items, the one of the index that was found is the item that is found. -/
theorem flatMap_findIdx? {α β : Type} (p : α → Bool) (f : α → β) (items : List α) (first : Nat) :
    ((items.zipIdx first).flatMap fun (a, k) =>
      if (items.findIdx? p).map (· + first) = some k then [f a] else []) =
      ((items.find? p).map f).toList := by
  induction items generalizing first with
  | nil => rfl
  | cons a items ih =>
      rw [List.zipIdx_cons, List.flatMap_cons, List.findIdx?_cons, List.find?_cons]
      cases here : p a with
      | true =>
          have others : ((items.zipIdx (first + 1)).flatMap fun (b, k) =>
              if first = k then [f b] else []) = [] := by
            apply List.flatMap_eq_nil_iff.mpr
            rintro ⟨b, k⟩ member
            have behind : first + 1 ≤ k := List.le_snd_of_mem_zipIdx member
            exact if_neg (by omega)
          simpa using others
      | false =>
          have shifted : ((items.findIdx? p).map (· + 1)).map (· + first) =
              (items.findIdx? p).map (· + (first + 1)) := by
            rw [Option.map_map]
            congr 1
            funext k
            simp only [Function.comp_apply]
            omega
          have behind : (items.findIdx? p).map (· + (first + 1)) ≠ some first := by
            cases items.findIdx? p <;> simp
            omega
          simp only [Bool.false_eq_true, if_false, shifted, if_neg behind, List.nil_append]
          exact ih (first + 1)

namespace Language

theorem queued_perm_taken (l : Language) (tokens : List Token) :
    (l.queued tokens).Perm (l.taken tokens) := by
  induction tokens with
  | nil => simp [queued, taken]
  | cons t tokens ih =>
      have split : l.queued (t :: tokens) = l.groups.zipIdx.flatMap fun (g, k) =>
          (if l.taker? t.text = some k then [(t, g.styles)] else []) ++
            (tokens.filter fun t => l.taker? t.text = some k).map (·, g.styles) := by
        simp only [queued]
        congr 1
        funext ⟨g, k⟩
        by_cases here : l.taker? t.text = some k <;> simp [here]
      have first := flatMap_findIdx? (·.contains t.text) (fun g : Group => (t, g.styles)) l.groups 0
      simp only [Nat.add_zero, Option.map_id'] at first
      rw [split]
      refine (List.flatMap_append_perm l.groups.zipIdx _ _).symm.trans ?_
      rw [taken, List.flatMap_cons, ← first]
      exact ih.append_left _

theorem taken_ordered (l : Language) {tokens : List Token}
    (ordered : tokens.Pairwise fun a b => a.stop ≤ b.start) :
    (l.taken tokens).Pairwise fun j k => j.1.stop ≤ k.1.start := by
  have only {t : Token} {j : Job}
      (h : j ∈ ((l.groups.find? (·.contains t.text)).map (t, ·.styles)).toList) : j.1 = t := by
    obtain ⟨g, -, rfl⟩ := Option.map_eq_some_iff.mp (Option.mem_toList.mp h)
    rfl
  refine List.pairwise_flatMap.mpr ⟨?_, ordered.imp ?_⟩
  · intro t _
    cases (l.groups.find? (·.contains t.text)).map (t, ·.styles) <;> simp
  · intro a b before j hj k hk
    rw [only hj, only hk]
    exact before

/-- A line carries the lasting styles of its tokens, group by group. -/
theorem lineSpans_eq (l : Language) (content : List Char) :
    l.lineSpans content = (l.queued (tokenize (isSeparator (some l)) content)).flatMap
      fun j => j.shown.spans := by
  let tokens := tokenize (isSeparator (some l)) content
  have perm := l.queued_perm_taken tokens
  have apart : (l.queued tokens).Pairwise Job.Apart := by
    have taken := l.taken_ordered (tokenize_ordered (isSeparator (some l)) content)
    exact (perm.pairwise_iff fun h => h.symm).mpr (taken.imp fun h => .inl h)
  have ordered : ∀ j ∈ l.queued tokens, j.1.start < j.1.stop := fun j hj =>
    (tokenize_bounds (mem_taken (perm.mem_iff.mp hj)).1).1
  rw [lineSpans, spansOf_eq, Span.paintAll_jobs apart ordered (by simp), List.nil_append]

end Language

/-! ## Stable sorting -/

section Sorting

variable {α : Type} {le : α → α → Bool}

/-- Sorted lists that agree on every class of equals are the same. -/
theorem eq_of_classes (total : ∀ a b, le a b || le b a) {xs ys : List α}
    (sorted : xs.Pairwise (le · ·)) (sorted' : ys.Pairwise (le · ·))
    (classes : ∀ a, xs.filter (fun b => le a b && le b a) = ys.filter fun b => le a b && le b a) :
    xs = ys := by
  have refl (a : α) : le a a = true := by simpa using total a a
  have member {xs ys : List α} (a : α) (same : xs.filter (fun b => le a b && le b a) =
      ys.filter fun b => le a b && le b a) : a ∈ xs ↔ a ∈ ys := by
    have := congrArg (a ∈ ·) same
    simpa [List.mem_filter, refl] using this
  induction xs generalizing ys with
  | nil =>
      have none : ∀ a, a ∉ ys := fun a h => List.not_mem_nil ((member a (classes a)).mpr h)
      exact (List.eq_nil_iff_forall_not_mem.mpr none).symm
  | cons a xs ih =>
      cases ys with
      | nil => exact absurd ((member a (classes a)).mp List.mem_cons_self) List.not_mem_nil
      | cons b ys =>
          obtain ⟨least, rest⟩ := List.pairwise_cons.mp sorted
          obtain ⟨least', rest'⟩ := List.pairwise_cons.mp sorted'
          -- Each head is at or before the other one, so both lead the class of either.
          have forth : le a b = true := by
            rcases List.mem_cons.mp ((member b (classes b)).mpr List.mem_cons_self) with rfl | later
            · exact refl b
            · exact least b later
          have back : le b a = true := by
            rcases List.mem_cons.mp ((member a (classes a)).mp List.mem_cons_self) with rfl | later
            · exact refl a
            · exact least' a later
          have heads := classes a
          simp only [List.filter_cons, refl, forth, back, Bool.and_self, if_true,
            List.cons.injEq] at heads
          obtain ⟨rfl, -⟩ := heads
          have tails (c : α) : xs.filter (fun b => le c b && le b c) =
              ys.filter fun b => le c b && le b c := by
            have := classes c
            simp only [List.filter_cons] at this
            split at this
            · exact List.cons.inj this |>.2
            · exact this
          rw [ih rest rest' tails]

/-- Sorting is stable, so a sorted list is what another one is sorted to if both agree on every
    class of equals. -/
theorem mergeSort_eq_of_classes (trans : ∀ a b c, le a b → le b c → le a c)
    (total : ∀ a b, le a b || le b a) {xs ys : List α} (sorted : ys.Pairwise (le · ·))
    (classes : ∀ a, xs.filter (fun b => le a b && le b a) = ys.filter fun b => le a b && le b a) :
    xs.mergeSort le = ys := by
  apply eq_of_classes total (List.pairwise_mergeSort trans total xs) sorted
  intro a
  rw [← classes a]
  have all_equal : (xs.filter fun b => le a b && le b a).Pairwise (le · ·) := by
    apply List.pairwise_of_forall_mem_list
    intro b hb c hc
    simp only [List.mem_filter, Bool.and_eq_true] at hb hc
    exact trans b a c hb.2.2 hc.2.1
  have kept := (List.sublist_mergeSort trans total all_equal List.filter_sublist).filter
    fun b => le a b && le b a
  simp only [List.filter_filter, Bool.and_self] at kept
  have count := ((List.mergeSort_perm xs le).filter fun b => le a b && le b a).length_eq
  exact (kept.eq_of_length count.symm).symm

end Sorting

/-! ## The jobs of a document -/

namespace Job

/-- The job on a line that starts at `offset`, in offsets of the document. -/
def shift (offset : Nat) (j : Job) : Job :=
  (⟨offset + j.1.start, offset + j.1.stop, j.1.text⟩, j.2)

/-- What shows of a job. -/
def ranges (j : Job) : List StyledRange :=
  (Style.lasting j.2).map fun style => ⟨j.1.start, j.1.stop, style⟩

end Job

namespace Language

/-- The jobs of lines, of which the first starts at `offset`; `order` gives those of one line. -/
def jobsOn (l : Language) (order : List Token → List Job) (offset : Nat) :
    List (List Char) → List Job
  | [] => []
  | line :: rest =>
    (order (tokenize (isSeparator (some l)) (Text.lineContent line))).map (Job.shift offset) ++
      l.jobsOn order (offset + line.length) rest

theorem rangesFrom_eq (l : Language) {offset : Nat} {blocks : List Block}
    {lines : List (List Char)} (spans : blocks.map (·.spans) =
      lines.map fun line => l.lineSpans (Text.lineContent line)) :
    Document.rangesFrom offset blocks lines =
      (l.jobsOn l.queued offset lines).flatMap Job.ranges := by
  induction lines generalizing offset blocks with
  | nil => cases blocks <;> rfl
  | cons line lines ih =>
      cases blocks with
      | nil => cases spans
      | cons b blocks =>
          rw [List.map_cons, List.map_cons, List.cons.injEq] at spans
          rw [Document.rangesFrom, jobsOn, List.flatMap_append, ih spans.2, spans.1, lineSpans_eq,
            List.map_flatMap, List.flatMap_map]
          simp only [Job.spans, Job.shown, Job.ranges, Job.shift, List.map_map, Function.comp_def]

theorem rangesOn_eq (l : Language) (offset : Nat) (lines : List (List Char)) :
    l.rangesOn offset lines = (l.jobsOn l.taken offset lines).flatMap Job.ranges := by
  induction lines generalizing offset with
  | nil => rfl
  | cons line lines ih =>
      rw [rangesOn, jobsOn, List.flatMap_append, ih, List.flatMap_map, taken, List.flatMap_assoc]
      congr 2
      funext t
      rw [stylesFor]
      cases l.groups.find? (·.contains t.text) with
      | none => rfl
      | some g => simp [Job.ranges, Job.shift]

theorem jobsOn_perm (l : Language) (offset : Nat) (lines : List (List Char)) :
    (l.jobsOn l.queued offset lines).Perm (l.jobsOn l.taken offset lines) := by
  induction lines generalizing offset with
  | nil => exact .nil
  | cons line lines ih => exact ((l.queued_perm_taken _).map _).append (ih _)

theorem jobsOn_bounds {l : Language} {offset : Nat} {lines : List (List Char)} {j : Job}
    (h : j ∈ l.jobsOn l.taken offset lines) : offset ≤ j.1.start ∧ j.1.start < j.1.stop := by
  induction lines generalizing offset with
  | nil => cases h
  | cons line lines ih =>
      rcases List.mem_append.mp h with here | later
      · obtain ⟨k, hk, rfl⟩ := List.mem_map.mp here
        have := tokenize_bounds (mem_taken hk).1
        simp only [Job.shift]
        omega
      · have := ih later
        omega

theorem jobsOn_ordered (l : Language) (offset : Nat) (lines : List (List Char)) :
    (l.jobsOn l.taken offset lines).Pairwise fun j k => j.1.stop ≤ k.1.start := by
  induction lines generalizing offset with
  | nil => exact .nil
  | cons line lines ih =>
      refine List.pairwise_append.mpr ⟨List.pairwise_map.mpr ?_, ih _, ?_⟩
      · refine (l.taken_ordered (tokenize_ordered _ _)).imp ?_
        intro j k before
        exact Nat.add_le_add_left before offset
      · intro j hj k hk
        obtain ⟨i, hi, rfl⟩ := List.mem_map.mp hj
        have inside := (tokenize_bounds (mem_taken hi).1).2
        have short : (Text.lineContent line).length ≤ line.length :=
          (List.takeWhile_sublist _).length_le
        have behind := (jobsOn_bounds hk).1
        simp only [Job.shift]
        omega

end Language

/-! ## Sorting the jobs -/

theorem StyledRange.le_trans (a b c : StyledRange) (h : Document.StyledRange.le a b)
    (h' : Document.StyledRange.le b c) : Document.StyledRange.le a c := by
  simp only [Document.StyledRange.le, Bool.or_eq_true, Bool.and_eq_true, decide_eq_true_eq,
    beq_iff_eq] at h h' ⊢
  omega

theorem StyledRange.le_total (a b : StyledRange) :
    Document.StyledRange.le a b || Document.StyledRange.le b a := by
  simp only [Document.StyledRange.le, Bool.or_eq_true, Bool.and_eq_true, decide_eq_true_eq,
    beq_iff_eq]
  omega

namespace Job

/-- The ranges at one place are those of the one job there, whatever the order of the jobs. -/
theorem filter_ranges {jobs jobs' : List Job} (perm : jobs.Perm jobs')
    (ordered : jobs'.Pairwise fun j k => j.1.stop ≤ k.1.start)
    (bounds : ∀ j ∈ jobs', j.1.start < j.1.stop) (start stop : Nat) :
    ((jobs.flatMap ranges).filter fun r => r.start == start && r.stop == stop) =
      (jobs'.flatMap ranges).filter fun r => r.start == start && r.stop == stop := by
  let here (j : Job) : Bool := j.1.start == start && j.1.stop == stop
  have split (jobs : List Job) :
      ((jobs.flatMap ranges).filter fun r => r.start == start && r.stop == stop) =
        (jobs.filter here).flatMap ranges := by
    induction jobs with
    | nil => rfl
    | cons j jobs ih =>
        have all : j.ranges.filter (fun r => r.start == start && r.stop == stop) =
            if here j then j.ranges else [] := by
          rw [ranges, List.filter_map]
          change ((Style.lasting j.2).filter fun _ => here j).map _ = _
          cases here j <;> simp
        rw [List.flatMap_cons, List.filter_append, ih, List.filter_cons, all]
        split <;> rfl
  have one : jobs.filter here = jobs'.filter here := by
    have perm := perm.filter here
    match found : jobs'.filter here with
    | [] => rwa [found, List.perm_nil] at perm
    | [j] => rwa [found, List.perm_singleton] at perm
    | j :: k :: rest =>
        have before := ordered.filter here
        rw [found] at before
        have apart := List.rel_of_pairwise_cons before List.mem_cons_self
        have hj : j ∈ jobs'.filter here := by simp [found]
        have hk : k ∈ jobs'.filter here := by simp [found]
        have := bounds k (List.mem_of_mem_filter hk)
        simp only [List.mem_filter, here, Bool.and_eq_true, beq_iff_eq] at hj hk
        omega
  rw [split, split, one]

theorem mergeSort_ranges {jobs jobs' : List Job} (perm : jobs.Perm jobs')
    (ordered : jobs'.Pairwise fun j k => j.1.stop ≤ k.1.start)
    (bounds : ∀ j ∈ jobs', j.1.start < j.1.stop) :
    (jobs.flatMap ranges).mergeSort Document.StyledRange.le = jobs'.flatMap ranges := by
  apply mergeSort_eq_of_classes StyledRange.le_trans StyledRange.le_total
  · refine List.pairwise_flatMap.mpr ⟨?_, ordered.imp_of_mem ?_⟩
    · intro j _
      refine List.pairwise_map.mpr (List.pairwise_of_forall ?_)
      simp [Document.StyledRange.le]
    · intro j k hj _ before r hr r' hr'
      obtain ⟨style, -, rfl⟩ := List.mem_map.mp hr
      obtain ⟨style', -, rfl⟩ := List.mem_map.mp hr'
      have := bounds j hj
      simp only [Document.StyledRange.le, Bool.or_eq_true, decide_eq_true_eq]
      omega
  · intro a
    have same (r : StyledRange) :
        (Document.StyledRange.le a r && Document.StyledRange.le r a) =
          (r.start == a.start && r.stop == a.stop) := by
      rw [Bool.eq_iff_iff]
      simp only [Document.StyledRange.le, Bool.or_eq_true, Bool.and_eq_true, decide_eq_true_eq,
        beq_iff_eq]
      omega
    simp only [same]
    exact filter_ranges perm ordered bounds a.start a.stop

end Job

/-! ## What shows -/

theorem Document.rangesFrom_bare {start : Nat} {blocks : List Block} {lines : List (List Char)}
    (bare : ∀ b ∈ blocks, b.spans = []) : rangesFrom start blocks lines = [] := by
  induction blocks generalizing start lines with
  | nil => cases lines <;> rfl
  | cons b blocks ih =>
      cases lines with
      | nil => rfl
      | cons line lines =>
          rw [rangesFrom, bare b List.mem_cons_self,
            ih fun b' later => bare b' (List.mem_cons_of_mem b later)]
          rfl

/-- A document whose lines all carry what they should shows what can be read off its text. -/
theorem Document.Styled.ranges_eq {d : Document} (h : d.WellFormed) {language : Option Language}
    (styled : d.Styled language) : d.styledRanges = rangesFor language d.text := by
  have spans := styled.spans_eq h
  cases language with
  | none =>
      have bare : ∀ b ∈ d.blocks, b.spans = [] := by
        intro b hb
        have member := List.mem_map_of_mem (f := Block.spans) hb
        rw [spans] at member
        obtain ⟨line, -, none⟩ := List.mem_map.mp member
        exact none.symm
      rw [styledRanges, rangesFrom_bare bare, List.mergeSort_nil]
      rfl
  | some l =>
      have sorted := Job.mergeSort_ranges (l.jobsOn_perm 0 d.lines) (l.jobsOn_ordered 0 d.lines)
        fun j hj => (Language.jobsOn_bounds hj).2
      rw [styledRanges, l.rangesFrom_eq spans, sorted, ← l.rangesOn_eq, d.lines_eq]
      rfl

theorem Style.mem_of_mem_lasting {styles : List Style} {style : Style}
    (h : style ∈ lasting styles) : style ∈ styles := by
  induction styles with
  | nil => exact h
  | cons other styles ih =>
      rw [lasting] at h
      split at h
      · exact List.mem_cons_of_mem other (ih h)
      · rcases List.mem_cons.mp h with rfl | later
        · exact List.mem_cons_self
        · exact List.mem_cons_of_mem other (ih later)

/-- A job of a line, in the text that the line stands in. -/
theorem Job.shift_slice (before after : List Char) {line : List Char} {isSeparator : Char → Bool}
    {j : Job} (h : j.1 ∈ tokenize isSeparator (Text.lineContent line)) :
    ((before ++ line ++ after).take (j.shift before.length).1.stop).drop
      (j.shift before.length).1.start = j.1.text := by
  obtain ⟨tail, whole⟩ := List.takeWhile_prefix (l := line) (!Text.isBreak ·)
  change Text.lineContent line ++ tail = line at whole
  obtain ⟨ordered, inside⟩ := tokenize_bounds h
  have behind : (before ++ line ++ after).drop before.length =
      Text.lineContent line ++ (tail ++ after) := by
    rw [List.append_assoc, List.drop_left, ← List.append_assoc, whole]
  rw [shift, List.drop_take, ← List.drop_drop, behind, ← tokenize_slice h, List.drop_take,
    Nat.add_sub_add_left, List.drop_append_of_le_length (by omega),
    List.take_append_of_le_length (by rw [List.length_drop]; omega)]

theorem Language.rangesOn_slice {l : Language} (before : List Char) {lines : List (List Char)}
    {r : StyledRange} (h : r ∈ l.rangesOn before.length lines) :
    ∃ g ∈ l.groups, g.contains (((before ++ lines.flatten).take r.stop).drop r.start) = true ∧
      r.style ∈ g.styles := by
  rw [rangesOn_eq] at h
  obtain ⟨j, hj, hr⟩ := List.mem_flatMap.mp h
  obtain ⟨style, lasts, rfl⟩ := List.mem_map.mp hr
  have in_group := Style.mem_of_mem_lasting lasts
  clear h hr lasts
  induction lines generalizing before with
  | nil => cases hj
  | cons line lines ih =>
      rcases List.mem_append.mp hj with here | later
      · obtain ⟨k, hk, rfl⟩ := List.mem_map.mp here
        obtain ⟨scanned, g, hg, holds, styles⟩ := mem_taken hk
        have slice := Job.shift_slice before lines.flatten scanned
        refine ⟨g, hg, ?_, styles ▸ in_group⟩
        rw [List.flatten_cons, ← List.append_assoc, slice]
        exact holds
      · rw [← List.length_append] at later
        have := ih _ later
        rwa [List.append_assoc, ← List.flatten_cons] at this

/-- Every range is a slice of the text that a group of the language holds, in one of its styles. -/
theorem rangesFor_slice {language : Option Language} {text : List Char} {r : StyledRange}
    (h : r ∈ rangesFor language text) : ∃ l ∈ language, ∃ g ∈ l.groups,
      g.contains ((text.take r.stop).drop r.start) = true ∧ r.style ∈ g.styles := by
  cases language with
  | none => cases h
  | some l =>
      have := Language.rangesOn_slice [] h
      rw [List.nil_append, Text.flatten_lines] at this
      exact ⟨l, rfl, this⟩

end Highlight
