import Highlight.Proofs.Language.Tokens
import Mathlib.Data.List.Sort

/-! # Tokens are maximal runs

What the scan finds can be said without a scan: the separators of the text, each on its own, and the
runs between them that cannot be made longer. `Token.Splits` says what a list of tokens has to
satisfy to be such a cut. The cut that the scan makes satisfies it, and no other list does, because
two maximal runs that share a character are one.
-/

namespace Highlight

namespace Token

/-- Whether a character can stand in a run: it is neither blank nor a separator. -/
def isPlain (isSeparator : Char → Bool) (c : Char) : Bool :=
  !Text.isBlank c && !isSeparator c

/-- A stretch of the text that is not empty and has plain characters only. -/
structure PlainRun (isSeparator : Char → Bool) (text : List Char) (first last : Nat) : Prop where
  nonempty : first < last
  inside : last ≤ text.length
  plain : ∀ i c, first ≤ i → i < last → text[i]? = some c → isPlain isSeparator c = true

/-- A plain stretch that no other one contains. -/
structure MaximalRun (isSeparator : Char → Bool) (text : List Char) (first last : Nat) : Prop
    extends PlainRun isSeparator text first last where
  maximal : ∀ first' last', first' ≤ first → last ≤ last' →
    PlainRun isSeparator text first' last' → first' = first ∧ last' = last

/-- The list cuts the text into separators and maximal runs and leaves nothing but blanks out. -/
structure Splits (isSeparator : Char → Bool) (text : List Char) (tokens : List Token) : Prop where
  nonempty : ∀ t ∈ tokens, t.start < t.stop
  slices : ∀ t ∈ tokens, t.stop ≤ text.length ∧ (text.take t.stop).drop t.start = t.text
  ordered : tokens.Pairwise fun a b => a.stop ≤ b.start
  covered : ∀ i c, text[i]? = some c → Text.isBlank c = false →
    ∃! t, t ∈ tokens ∧ t.start ≤ i ∧ i < t.stop
  solid : ∀ t ∈ tokens, ∀ c ∈ t.text, Text.isBlank c = false
  separators : ∀ i c, text[i]? = some c → Text.isBlank c = false → isSeparator c = true →
    ⟨i, i + 1, [c]⟩ ∈ tokens
  runs : ∀ t ∈ tokens, (∃ c, t.text = [c] ∧ isSeparator c = true) ∨
    MaximalRun isSeparator text t.start t.stop

variable {isSeparator : Char → Bool} {text : List Char}

theorem isPlain_iff {c : Char} :
    isPlain isSeparator c = true ↔ Text.isBlank c = false ∧ isSeparator c = false := by
  simp [isPlain]

/-! ## Runs -/

/-- A plain word is a plain stretch of every text that it stands in. -/
theorem plainRun_append {word : List Char} (some_word : word ≠ [])
    (plain : ∀ c ∈ word, isPlain isSeparator c = true) (pre post : List Char) :
    PlainRun isSeparator (pre ++ word ++ post) pre.length (pre.length + word.length) := by
  have pos := List.length_pos_iff.mpr some_word
  refine ⟨by omega, by simp, fun i c from_start to_stop found => plain c ?_⟩
  rw [List.getElem?_append_left (by rw [List.length_append]; omega),
    List.getElem?_append_right from_start] at found
  exact List.mem_of_getElem? found

/-- A plain word between characters that are not plain is a maximal run. -/
theorem maximalRun_append {pre word post : List Char} (some_word : word ≠ [])
    (plain : ∀ c ∈ word, isPlain isSeparator c = true)
    (before : ∀ c ∈ pre.getLast?, isPlain isSeparator c = false)
    (behind : ∀ c ∈ post.head?, isPlain isSeparator c = false) :
    MaximalRun isSeparator (pre ++ word ++ post) pre.length (pre.length + word.length) := by
  have short := plainRun_append some_word plain pre post
  refine ⟨short, fun first last from_start to_stop run => ?_⟩
  have := short.nonempty
  constructor
  · by_contra other
    have inside : pre.length - 1 < pre.length := by omega
    have last_char : (pre ++ word ++ post)[pre.length - 1]? = some pre[pre.length - 1] := by
      rw [List.append_assoc, List.getElem?_append_left inside, List.getElem?_eq_getElem inside]
    have plain_last := run.plain _ _ (by omega) (by omega) last_char
    rw [before _ (List.getLast?_eq_getElem?.trans (List.getElem?_eq_getElem inside))] at plain_last
    cases plain_last
  · by_contra other
    have inside := run.inside
    simp only [List.length_append] at inside
    obtain ⟨c, tail, rfl⟩ := List.exists_cons_of_length_pos (by omega : 0 < post.length)
    have head_char : (pre ++ word ++ c :: tail)[pre.length + word.length]? = some c := by
      rw [← List.length_append, List.getElem?_append_right (Nat.le_refl _), Nat.sub_self]
      rfl
    have plain_head := run.plain _ _ (by omega) (by omega) head_char
    rw [behind c rfl] at plain_head
    cases plain_head

/-- A maximal run stands between characters that are not plain: with one of them it would be a
    longer run. -/
theorem MaximalRun.bounded {pre word post : List Char}
    (plain : ∀ c ∈ word, isPlain isSeparator c = true)
    (run : MaximalRun isSeparator (pre ++ word ++ post) pre.length (pre.length + word.length)) :
    (∀ c ∈ pre.getLast?, isPlain isSeparator c = false) ∧
      ∀ c ∈ post.head?, isPlain isSeparator c = false := by
  refine ⟨fun c last => ?_, fun c head => ?_⟩
  · obtain ⟨front, rfl⟩ := List.getLast?_eq_some_iff.mp last
    rw [← Bool.not_eq_true]
    intro plain_last
    have longer := plainRun_append (List.cons_ne_nil c word)
      (List.forall_mem_cons.mpr ⟨plain_last, plain⟩) front post
    have grown := run.maximal front.length (front.length + (c :: word).length)
      (by simp) (by simp; omega) (by simpa using longer)
    simp at grown
  · obtain ⟨tail, rfl⟩ := List.head?_eq_some_iff.mp head
    rw [← Bool.not_eq_true]
    intro plain_head
    have all_plain : ∀ d ∈ word ++ [c], isPlain isSeparator d = true :=
      List.forall_mem_append.mpr ⟨plain, by simpa using plain_head⟩
    have longer := plainRun_append (by simp) all_plain pre tail
    have grown := run.maximal pre.length (pre.length + (word ++ [c]).length)
      (Nat.le_refl _) (by simp) (by simpa using longer)
    simp at grown

/-- Two maximal runs that share a character are one, since otherwise they could be joined. -/
theorem MaximalRun.eq_of_shared {first last first' last' i : Nat}
    (h : MaximalRun isSeparator text first last) (h' : MaximalRun isSeparator text first' last')
    (here : first ≤ i ∧ i < last) (here' : first' ≤ i ∧ i < last') :
    first' = first ∧ last' = last := by
  have joined : PlainRun isSeparator text (min first first') (max last last') := by
    refine ⟨by omega, Nat.max_le.mpr ⟨h.inside, h'.inside⟩, fun j c from_start to_stop found => ?_⟩
    by_cases inside : first ≤ j ∧ j < last
    · exact h.plain j c inside.1 inside.2 found
    · exact h'.plain j c (by omega) (by omega) found
  have whole := h.maximal _ _ (Nat.min_le_left _ _) (Nat.le_max_left _ _) joined
  have whole' := h'.maximal _ _ (Nat.min_le_right _ _) (Nat.le_max_right _ _) joined
  omega

/-- The places where a token of the text can stand: on a separator, or on a maximal run. -/
def Proper (isSeparator : Char → Bool) (text : List Char) (t : Token) : Prop :=
  (∃ c, text[t.start]? = some c ∧ t.stop = t.start + 1 ∧ Text.isBlank c = false ∧
    isSeparator c = true) ∨ MaximalRun isSeparator text t.start t.stop

namespace Proper

theorem bounds {t : Token} (h : Proper isSeparator text t) :
    t.start < t.stop ∧ t.stop ≤ text.length := by
  rcases h with ⟨c, found, stop, -⟩ | run
  · have := (List.getElem?_eq_some_iff.mp found).1
    omega
  · exact ⟨run.nonempty, run.inside⟩

theorem solid {t : Token} (h : Proper isSeparator text t) {i : Nat} {c : Char}
    (from_start : t.start ≤ i) (to_stop : i < t.stop) (found : text[i]? = some c) :
    Text.isBlank c = false := by
  rcases h with ⟨c', found', stop, solid, -⟩ | run
  · obtain rfl : i = t.start := by omega
    rw [found] at found'
    cases found'
    exact solid
  · exact (isPlain_iff.mp (run.plain i c from_start to_stop found)).1

/-- Proper tokens over one character stand at the same place: a separator is in no run, so both are
    separators or both are runs. -/
theorem eq_of_shared {t u : Token} (h : Proper isSeparator text t) (h' : Proper isSeparator text u)
    {i : Nat} (here : t.start ≤ i ∧ i < t.stop) (here' : u.start ≤ i ∧ i < u.stop) :
    u.start = t.start ∧ u.stop = t.stop := by
  have apart {t u : Token} {c : Char} (found : text[t.start]? = some c)
      (stop : t.stop = t.start + 1) (separator : isSeparator c = true)
      (run : MaximalRun isSeparator text u.start u.stop) (here : t.start ≤ i ∧ i < t.stop)
      (here' : u.start ≤ i ∧ i < u.stop) : False := by
    have plain := isPlain_iff.mp (run.plain t.start c (by omega) (by omega) found)
    simp [separator] at plain
  rcases h with ⟨c, found, stop, -, separator⟩ | run <;>
    rcases h' with ⟨c', found', stop', -, separator'⟩ | run'
  · omega
  · exact (apart found stop separator run' here here').elim
  · exact (apart found' stop' separator' run here' here).elim
  · exact run.eq_of_shared run' here here'

end Proper

/-! ## The scan -/

/-- A state of the scan: at `offset` the pending run is plain, and what was read before it ends in
    no plain character. -/
structure Reads (isSeparator : Char → Bool) (text : List Char) (offset : Nat)
    (before pending rest : List Char) : Prop where
  text_eq : text = before ++ pending.reverse ++ rest
  reached : offset = before.length + pending.length
  plain : ∀ c ∈ pending, isPlain isSeparator c = true
  bounded : ∀ c ∈ before.getLast?, isPlain isSeparator c = false

namespace Reads

variable {offset : Nat} {before pending rest : List Char} {c : Char}

theorem start (isSeparator : Char → Bool) (text : List Char) :
    Reads isSeparator text 0 [] [] text :=
  ⟨rfl, rfl, by simp, by simp⟩

theorem extend (h : Reads isSeparator text offset before pending (c :: rest))
    (plain : isPlain isSeparator c = true) :
    Reads isSeparator text (offset + 1) before (c :: pending) rest :=
  ⟨by simpa using h.text_eq, by simp [h.reached, Nat.add_assoc],
    List.forall_mem_cons.mpr ⟨plain, h.plain⟩, h.bounded⟩

theorem restart (h : Reads isSeparator text offset before pending (c :: rest))
    (stops : isPlain isSeparator c = false) :
    Reads isSeparator text (offset + 1) (before ++ pending.reverse ++ [c]) [] rest :=
  ⟨by simpa using h.text_eq, by simp [h.reached, Nat.add_assoc], by simp, by simpa using stops⟩

theorem getElem?_offset (h : Reads isSeparator text offset before pending (c :: rest)) :
    text[offset]? = some c := by
  rw [h.text_eq, h.reached, List.getElem?_append_right (by simp)]
  simp

theorem close_proper (h : Reads isSeparator text offset before pending rest)
    (stops : ∀ c ∈ rest.head?, isPlain isSeparator c = false) {t : Token}
    (member : t ∈ close pending offset) : Proper isSeparator text t := by
  have some_pending : pending.reverse ≠ [] := by
    intro none
    rw [List.reverse_eq_nil_iff.mp none] at member
    cases member
  have run := maximalRun_append some_pending (by simpa using h.plain) h.bounded stops
  rw [← h.text_eq, List.length_reverse] at run
  rw [mem_close member, h.reached, Nat.add_sub_cancel]
  exact .inr run

theorem close_covers (h : Reads isSeparator text offset before pending rest) {i : Nat}
    (from_start : before.length ≤ i) (to_stop : i < offset) :
    ∃ t ∈ close pending offset, t.start ≤ i ∧ i < t.stop := by
  have reached := h.reached
  have some_pending : ¬pending.isEmpty = true := by
    rw [List.isEmpty_iff_length_eq_zero]
    omega
  refine ⟨⟨offset - pending.length, offset, pending.reverse⟩, ?_, ?_, to_stop⟩
  · rw [close, if_neg some_pending]
    exact List.mem_singleton_self _
  · exact Nat.sub_le_iff_le_add.mpr (by omega)

end Reads

theorem scan_proper {offset : Nat} {before pending rest : List Char}
    (h : Reads isSeparator text offset before pending rest) {t : Token}
    (member : t ∈ scan isSeparator offset pending rest) : Proper isSeparator text t := by
  fun_induction scan isSeparator offset pending rest generalizing before with
  | case1 offset pending => exact h.close_proper (by simp) member
  | case2 offset pending c rest blank ih =>
      have stops : isPlain isSeparator c = false := by simp [isPlain, blank]
      rcases List.mem_append.mp member with first | later
      · exact h.close_proper (by simpa using stops) first
      · exact ih (h.restart stops) later
  | case3 offset pending c rest solid separator ih =>
      have stops : isPlain isSeparator c = false := by simp [isPlain, separator]
      rcases List.mem_append.mp member with first | later
      · exact h.close_proper (by simpa using stops) first
      · rcases List.mem_cons.mp later with rfl | later
        · exact .inl ⟨c, h.getElem?_offset, rfl, by simpa using solid, separator⟩
        · exact ih (h.restart stops) later
  | case4 offset pending c rest solid other ih =>
      exact ih (h.extend (by simp [isPlain, solid, other])) member

/-- No character that is not blank is left out. -/
theorem scan_covers {offset : Nat} {before pending rest : List Char}
    (h : Reads isSeparator text offset before pending rest) {i : Nat} {c : Char}
    (from_start : before.length ≤ i) (found : text[i]? = some c) (solid : Text.isBlank c = false) :
    ∃ t ∈ scan isSeparator offset pending rest, t.start ≤ i ∧ i < t.stop := by
  fun_induction scan isSeparator offset pending rest generalizing before with
  | case1 offset pending =>
      have inside := (List.getElem?_eq_some_iff.mp found).1
      rw [h.text_eq] at inside
      exact h.close_covers from_start (by simpa [h.reached] using inside)
  | case2 offset pending d rest blank ih =>
      have restarted := h.restart (by simp [isPlain, blank])
      simp only [List.mem_append]
      rcases Nat.lt_trichotomy i offset with inside | rfl | later
      · obtain ⟨t, member, covers⟩ := h.close_covers from_start inside
        exact ⟨t, .inl member, covers⟩
      · rw [h.getElem?_offset] at found
        cases found
        rw [blank] at solid
        cases solid
      · obtain ⟨t, member, covers⟩ := ih restarted (restarted.reached.symm.trans_le later)
        exact ⟨t, .inr member, covers⟩
  | case3 offset pending d rest _ separator ih =>
      have restarted := h.restart (by simp [isPlain, separator])
      simp only [List.mem_append, List.mem_cons]
      rcases Nat.lt_trichotomy i offset with inside | rfl | later
      · obtain ⟨t, member, covers⟩ := h.close_covers from_start inside
        exact ⟨t, .inl member, covers⟩
      · exact ⟨_, .inr (.inl rfl), Nat.le_refl _, Nat.lt_succ_self _⟩
      · obtain ⟨t, member, covers⟩ := ih restarted (restarted.reached.symm.trans_le later)
        exact ⟨t, .inr (.inr member), covers⟩
  | case4 offset pending d rest solid' other ih =>
      exact ih (h.extend (by simp [isPlain, solid', other])) from_start

end Token

open Token

variable {isSeparator : Char → Bool} {text : List Char}

theorem tokenize_proper {t : Token} (member : t ∈ tokenize isSeparator text) :
    t.Proper isSeparator text :=
  scan_proper (.start isSeparator text) member

theorem tokenize_covers (isSeparator : Char → Bool) {i : Nat} {c : Char}
    (found : text[i]? = some c) (solid : Text.isBlank c = false) :
    ∃ t ∈ tokenize isSeparator text, t.start ≤ i ∧ i < t.stop :=
  scan_covers (.start isSeparator text) (Nat.zero_le i) found solid

/-! ## The cut -/

namespace Token

theorem slice_single {i : Nat} {c : Char} (found : text[i]? = some c) :
    (text.take (i + 1)).drop i = [c] := by
  simp [List.drop_take, List.take_one, List.head?_drop, found]

theorem getElem?_of_slice {t : Token} (slice : (text.take t.stop).drop t.start = t.text) {c : Char}
    (member : c ∈ t.text) : ∃ i, t.start ≤ i ∧ i < t.stop ∧ text[i]? = some c := by
  obtain ⟨k, found⟩ := List.mem_iff_getElem?.mp member
  rw [← slice, List.getElem?_drop, List.getElem?_take] at found
  split at found
  · exact ⟨t.start + k, Nat.le_add_right _ _, by assumption, found⟩
  · cases found

theorem eq_of_slices {t u : Token} (slice : (text.take t.stop).drop t.start = t.text)
    (slice' : (text.take u.stop).drop u.start = u.text)
    (same : u.start = t.start ∧ u.stop = t.stop) : u = t := by
  cases t
  cases u
  simp_all

end Token

theorem tokenize_splits (isSeparator : Char → Bool) (text : List Char) :
    Splits isSeparator text (tokenize isSeparator text) where
  nonempty t member := (tokenize_proper member).bounds.1
  slices t member := ⟨(tokenize_proper member).bounds.2, tokenize_slice member⟩
  ordered := tokenize_ordered isSeparator text
  covered i c found solid := by
    obtain ⟨t, member, here⟩ := tokenize_covers isSeparator found solid
    refine ⟨t, ⟨member, here⟩, fun u ⟨member', here'⟩ => ?_⟩
    exact eq_of_slices (tokenize_slice member) (tokenize_slice member')
      ((tokenize_proper member).eq_of_shared (tokenize_proper member') here here')
  solid t member c held := by
    obtain ⟨i, from_start, to_stop, found⟩ := getElem?_of_slice (tokenize_slice member) held
    exact (tokenize_proper member).solid from_start to_stop found
  separators i c found solid separator := by
    obtain ⟨t, member, here⟩ := tokenize_covers isSeparator found solid
    have proper : Proper isSeparator text ⟨i, i + 1, [c]⟩ :=
      .inl ⟨c, found, rfl, solid, separator⟩
    obtain rfl := eq_of_slices (slice_single found) (tokenize_slice member)
      (proper.eq_of_shared (tokenize_proper member) ⟨Nat.le_refl i, Nat.lt_succ_self i⟩ here)
    exact member
  runs t member := by
    refine (tokenize_proper member).imp_left fun ⟨c, found, stop, _, separator⟩ => ?_
    refine ⟨c, ?_, separator⟩
    rw [← tokenize_slice member, stop]
    exact slice_single found

namespace Token.Splits

variable {tokens : List Token}

theorem proper (h : Splits isSeparator text tokens) {t : Token} (member : t ∈ tokens) :
    t.Proper isSeparator text := by
  refine (h.runs t member).imp_left fun ⟨c, single, separator⟩ => ?_
  obtain ⟨inside, slice⟩ := h.slices t member
  have solid := h.solid t member c (by simp [single])
  rw [single] at slice
  have length := congrArg List.length slice
  simp only [List.length_drop, List.length_take, List.length_singleton] at length
  have stop : t.stop = t.start + 1 := by omega
  obtain ⟨i, from_start, to_stop, found⟩ := getElem?_of_slice (h.slices t member).2
    (single ▸ List.mem_singleton_self c)
  obtain rfl : i = t.start := by omega
  exact ⟨c, found, stop, solid, separator⟩

/-- What the list holds is determined by the text. -/
theorem mem_iff (h : Splits isSeparator text tokens) {t : Token} : t ∈ tokens ↔
    t.Proper isSeparator text ∧ (text.take t.stop).drop t.start = t.text := by
  constructor
  · intro member
    exact ⟨h.proper member, (h.slices t member).2⟩
  · rintro ⟨proper, slice⟩
    obtain ⟨nonempty, inside⟩ := proper.bounds
    have found := List.getElem?_eq_getElem (Nat.lt_of_lt_of_le nonempty inside)
    have solid := proper.solid (Nat.le_refl _) nonempty found
    obtain ⟨u, ⟨member, here⟩, -⟩ := h.covered t.start _ found solid
    obtain rfl := eq_of_slices slice (h.slices u member).2
      (proper.eq_of_shared (h.proper member) ⟨Nat.le_refl _, nonempty⟩ here)
    exact member

theorem increasing (h : Splits isSeparator text tokens) :
    tokens.Pairwise fun a b => a.start < b.start :=
  h.ordered.imp_of_mem fun member _ before => Nat.lt_of_lt_of_le (h.nonempty _ member) before

end Token.Splits

/-- The tokens of a text are not empty, stand one behind the other and hold what the text has there;
    each character that is not blank is in exactly one of them and no blank is in any; separators
    stand alone, and all other tokens are maximal runs. No other list of tokens is like this. -/
theorem tokenize_eq_iff_splits (isSeparator : Char → Bool) (text : List Char)
    (tokens : List Token) :
    tokens = tokenize isSeparator text ↔ Splits isSeparator text tokens := by
  have cut := tokenize_splits isSeparator text
  constructor
  · rintro rfl
    exact cut
  · intro splits
    have : Std.Antisymm fun a b : Token => a.start < b.start :=
      ⟨fun _ _ before behind => absurd before (Nat.lt_asymm behind)⟩
    have : Std.Irrefl fun a b : Token => a.start < b.start := ⟨fun _ => Nat.lt_irrefl _⟩
    apply splits.increasing.eq_of_mem_iff cut.increasing
    intro t
    rw [splits.mem_iff, cut.mem_iff]

end Highlight
