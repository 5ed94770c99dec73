import Offside.Proofs.Token.Following
import Offside.Proofs.Token.Tiling

/-!
# What is no token may as well be blank

Blanks, comments, illegal characters and numbers that are too large leave no trace among the tokens,
and they do not even matter as neighbours. `blankOut` writes a blank over every character that
belongs to no token; line ends stay. **The tokens of the new text are those of the old one, place by
place, and of its faults only the open strings are left** (`tokens_blankOut`).

* `blankText` is the same text written piece by piece (`toList_blankOut`).
* `eases_blankText`: a token may stand before the new text as well as before the old one. A mark
  cannot go on over a blank, and `.log` with a name character behind it is part of two tokens, so no
  `console` is completed by what has become blank.
* `filter_scan_blankText`: the pieces of the new text are blanks and the tokens of the old one.
-/

namespace Offside

/-! ### Writing blanks over a text -/

/-- A blank in place of a character that is not to be kept, unless it ends a line. -/
def keepIf (keep : Bool) (c : Char) : Char :=
  if keep || c = '\n' then c else ' '

/-- Does the character at this offset belong to one of the tokens? -/
def isCovered (tokens : List Token) (i : Nat) : Bool :=
  tokens.any fun token => token.span.start ≤ i && i < token.span.stop

/-- The source text with blanks for all that belongs to no token. -/
def blankOut (source : String) : String :=
  String.ofList (source.toList.mapIdx fun i c => keepIf (isCovered (tokens source) i) c)

/-- Is there a token in this piece? -/
def Lexeme.isToken : Lexeme → Bool
  | token _ => true
  | unclosed _ => true
  | _ => false

/-- The same text piece by piece. -/
def blankText : List Char → List Char
  | [] => []
  | c :: rest =>
    (cut c rest).text.map (keepIf (cut c rest).lexeme.isToken) ++ blankText (cut c rest).rest
termination_by text => text.length
decreasing_by exact length_cut_rest_lt c rest

theorem map_keepIf_true (text : List Char) : text.map (keepIf true) = text :=
  List.map_id text

/-- A piece covers what lies in its span if it is a token. -/
theorem isCovered_cons (piece : Piece) (rest : List Piece) (i : Nat) :
    isCovered ((piece :: rest).filterMap Piece.token?) i =
      (piece.lexeme.isToken && decide (piece.span.start ≤ i ∧ i < piece.span.stop) ||
        isCovered (rest.filterMap Piece.token?) i) := by
  obtain ⟨lexeme, text, span⟩ := piece
  cases lexeme <;> simp [isCovered, Piece.token?, Lexeme.isToken]

/-- No token of a text covers what lies before the text. -/
theorem isCovered_scan_of_lt {offset i : Nat} (h : i < offset) (line : Nat) (text : List Char) :
    isCovered ((Piece.scan offset line text).filterMap Piece.token?) i = false := by
  rw [isCovered, List.any_eq_false]
  intro token htoken
  obtain ⟨piece, hpiece, hread⟩ := List.mem_filterMap.mp htoken
  have hstart : offset ≤ piece.span.start :=
    (abut_scan offset line text).le_start _ (List.mem_map_of_mem hpiece)
  rw [← Piece.span_of_token? hread] at hstart
  simp only [Bool.and_eq_true, decide_eq_true_eq]
  omega

theorem mapIdx_eq_map {f : Nat → Char → Char} {g : Char → Char} {text : List Char}
    (h : ∀ i < text.length, f i = g) : text.mapIdx f = text.map g := by
  refine List.ext_getElem (by simp) fun i hi _ => ?_
  rw [List.getElem_mapIdx, List.getElem_map, h i (by simpa using hi)]

/-- Going through the characters of a text with the spans of its tokens is going through its
pieces. -/
theorem mapIdx_scan (offset line : Nat) (text : List Char) :
    (text.mapIdx fun i =>
      keepIf (isCovered ((Piece.scan offset line text).filterMap Piece.token?) (offset + i))) =
        blankText text := by
  induction offset, line, text using Piece.scan.induct with
  | case1 offset line => rw [blankText, List.mapIdx_nil]
  | case2 offset line c rest first ih =>
    have hwhole : c :: rest = first.text ++ first.rest := (cut_text_append_rest c rest).symm
    rw [blankText, Piece.scan]
    conv_lhs => rw [hwhole, List.mapIdx_append]
    rw [← ih]
    refine congrArg₂ (· ++ ·) (mapIdx_eq_map fun i hi => ?_) ?_
    · -- Within the first piece no later token counts.
      have hlater := isCovered_scan_of_lt (Nat.add_lt_add_left hi offset)
        (line + first.text.count '\n') first.rest
      have hinside : offset ≤ offset + i ∧ offset + i < offset + first.text.length := by omega
      rw [isCovered_cons, hlater, decide_eq_true hinside, Bool.and_true, Bool.or_false]
    · -- Behind the first piece it counts no more.
      refine congrArg (List.mapIdx · first.rest) (funext fun i => ?_)
      have houtside : ¬ (offset ≤ offset + (i + first.text.length) ∧
          offset + (i + first.text.length) < offset + first.text.length) := by omega
      have hplace : offset + (i + first.text.length) = offset + first.text.length + i := by omega
      rw [isCovered_cons, decide_eq_false houtside, Bool.and_false, Bool.false_or, hplace]

theorem toList_blankOut (source : String) :
    (blankOut source).toList = blankText source.toList := by
  rw [blankOut, String.toList_ofList, ← mapIdx_scan 0 1 source.toList]
  simp only [Nat.zero_add]
  rfl

/-! ### The new text behind a token -/

/-- The second text has blanks for some characters of the first one, but none for a line end. -/
def Fades (text faded : List Char) : Prop :=
  List.Forall₂ (fun c d => d = c ∨ d = ' ' ∧ c ≠ '\n') text faded

theorem fades_refl (text : List Char) : Fades text text :=
  List.forall₂_same.mpr fun _ _ => .inl rfl

theorem fades_map_keepIf (keep : Bool) (text : List Char) :
    Fades text (text.map (keepIf keep)) := by
  refine List.forall₂_map_right_iff.mpr (List.forall₂_same.mpr fun c _ => ?_)
  unfold keepIf
  split
  · exact .inl rfl
  · next h => exact .inr ⟨rfl, by simp_all⟩

theorem fades_blankText (text : List Char) : Fades text (blankText text) := by
  fun_induction blankText text with
  | case1 => exact .nil
  | case2 c rest ih =>
    rw [← cut_text_append_rest c rest]
    exact List.rel_append (fades_map_keepIf _ _) ih

/-- What has no blanks in it is not found where it has not been before. -/
theorem prefix_of_fades {text faded front : List Char} (h : Fades text faded)
    (hfront : ∀ c ∈ front, isBlank c = false) (hfaded : front <+: faded) : front <+: text := by
  induction h generalizing front with
  | nil => exact hfaded
  | @cons c d text faded hfades _ ih =>
    cases front with
    | nil => exact List.nil_prefix
    | cons e front =>
      obtain ⟨he, hrest⟩ := List.forall_mem_cons.mp hfront
      obtain ⟨rfl, htail⟩ := List.cons_prefix_cons.mp hfaded
      rcases hfades with rfl | ⟨rfl, -⟩
      · exact List.cons_prefix_cons.mpr ⟨rfl, ih hrest htail⟩
      · cases he

/-- A word at the start of a text is kept. -/
theorem takeWhile_prefix_blankText {c : Char} (h : isNameStart c) (rest : List Char) :
    (c :: rest).takeWhile isNameChar <+: blankText (c :: rest) := by
  rw [blankText, cut_of_isNameStart h, cutWord]
  split
  · rw [Lexeme.isToken, map_keepIf_true, List.append_assoc]
    exact List.prefix_append _ _
  · rw [Lexeme.isToken, map_keepIf_true]
    exact List.prefix_append _ _

theorem blankText_dot (rest : List Char) : blankText ('.' :: rest) = '.' :: blankText rest := by
  have hcut : cut '.' rest = ⟨.token (.mark .dot), ['.'], rest⟩ := rfl
  rw [blankText, hcut]
  rfl

/-- `.log` is followed by a name character as before: the two are part of one word. -/
theorem startsLog_of_blankText {text : List Char} (h : StartsLog (blankText text)) :
    StartsLog text := by
  obtain ⟨tail, htail, hends⟩ := h
  obtain ⟨rest, rfl⟩ : ".log".toList <+: text :=
    prefix_of_fades (fades_blankText text) (isBlank_of_any_eq_false rfl) ⟨tail, htail.symm⟩
  have hlog : blankText ('l' :: 'o' :: 'g' :: rest) = 'l' :: 'o' :: 'g' :: tail :=
    (List.cons.inj ((blankText_dot _).symm.trans htail)).2
  refine ⟨rest, rfl, fun c hc hname => ?_⟩
  obtain ⟨more, rfl⟩ := List.head?_eq_some_iff.mp (Option.mem_def.mp hc)
  have hword := takeWhile_prefix_blankText (c := 'l') rfl ('o' :: 'g' :: c :: more)
  have htake : ('l' :: 'o' :: 'g' :: c :: more).takeWhile isNameChar =
      'l' :: 'o' :: 'g' :: c :: more.takeWhile isNameChar :=
    congrArg ('l' :: 'o' :: 'g' :: ·) (List.takeWhile_cons_of_pos hname)
  rw [hlog, htake] at hword
  obtain ⟨left, hleft⟩ := hword
  obtain rfl : tail = c :: (more.takeWhile isNameChar ++ left) := by
    simpa using hleft.symm
  exact hends c rfl hname

theorem exists_head_of_fades {text faded : List Char} (h : Fades text faded) {d : Char}
    (hd : d ∈ faded.head?) : ∃ c ∈ text.head?, d = c ∨ d = ' ' ∧ c ≠ '\n' := by
  cases h with
  | nil => cases hd
  | cons hchar _ =>
    cases hd
    exact ⟨_, rfl, hchar⟩

/-- **A token may stand before the new text as well as before the old one.** -/
theorem eases_blankText (text : List Char) : Eases text (blankText text) where
  head := by
    intro d hd
    obtain ⟨c, hc, rfl | ⟨rfl, -⟩⟩ := exists_head_of_fades (fades_blankText text) hd
    · exact .inl hc
    · exact .inr rfl
  line := by
    intro hline d hd
    obtain ⟨c, hc, rfl | ⟨-, hnewline⟩⟩ := exists_head_of_fades (fades_blankText text) hd
    · exact hline d hc
    · exact absurd (hline c hc) hnewline
  reach := by
    intro before front hfront hprefix
    exact prefix_of_fades (List.rel_append (fades_refl before) (fades_blankText text)) hfront
      hprefix
  log := startsLog_of_blankText

/-! ### The pieces of the new text -/

/-- Is the piece white space or a comment? -/
def Piece.isGap (piece : Piece) : Bool :=
  piece.lexeme = .blank

theorem isBlank_keepIf_false (c : Char) : isBlank (keepIf false c) := by
  unfold keepIf
  split
  · next h =>
    obtain rfl : c = '\n' := by simpa using h
    rfl
  · rfl

theorem count_newline_map_keepIf (keep : Bool) (text : List Char) :
    (text.map (keepIf keep)).count '\n' = text.count '\n' := by
  rw [List.count_eq_countP, List.count_eq_countP, List.countP_map]
  refine congrArg (List.countP · text) (funext fun c => ?_)
  simp only [Function.comp, keepIf]
  split
  · rfl
  · next h => simp_all

/-- Blanks in front of a text are cut off one by one. -/
theorem filter_scan_blanks {blanks : List Char} (h : ∀ c ∈ blanks, isBlank c) (offset line : Nat)
    (rest : List Char) :
    (Piece.scan offset line (blanks ++ rest)).filter (fun piece => !piece.isGap) =
      (Piece.scan (offset + blanks.length) (line + blanks.count '\n') rest).filter
        fun piece => !piece.isGap := by
  induction blanks generalizing offset line with
  | nil => rfl
  | cons c blanks ih =>
    obtain ⟨hc, hblanks⟩ := List.forall_mem_cons.mp h
    have hspelled : Lexeme.blank.Spelled [] [c] (blanks ++ rest) := .space hc
    have hscan := scan_eq_of_spelled (List.cons_ne_nil c []) hspelled offset line
    have hlength : offset + 1 + blanks.length = offset + (c :: blanks).length := by
      rw [List.length_cons]
      omega
    have hcount : line + [c].count '\n' + blanks.count '\n' = line + (c :: blanks).count '\n' := by
      rw [Nat.add_assoc, ← List.count_append, List.singleton_append]
    rw [List.singleton_append] at hscan
    rw [List.cons_append, hscan, List.filter_cons_of_neg (by simp [Piece.isGap]), ← hlength,
      ← hcount]
    exact ih hblanks _ _

/-- **The pieces of the new text are blanks and the tokens of the old one.** -/
theorem filter_scan_blankText (offset line : Nat) (text : List Char) :
    (Piece.scan offset line (blankText text)).filter (fun piece => !piece.isGap) =
      (Piece.scan offset line text).filter fun piece => piece.lexeme.isToken := by
  induction offset, line, text using Piece.scan.induct with
  | case1 offset line =>
    rw [blankText, Piece.scan]
    rfl
  | case2 offset line c rest first ih =>
    rw [blankText, Piece.scan.eq_2]
    change (Piece.scan offset line (first.text.map (keepIf first.lexeme.isToken) ++ _)).filter _ = _
    cases htoken : first.lexeme.isToken with
    | false =>
      have hlength : (first.text.map (keepIf false)).length = first.text.length := List.length_map _
      rw [List.filter_cons_of_neg (by simpa using htoken), ← ih,
        filter_scan_blanks (fun c hc => ?_), hlength, count_newline_map_keepIf]
      obtain ⟨d, -, rfl⟩ := List.mem_map.mp hc
      exact isBlank_keepIf_false d
    | true =>
      have hspelled : first.lexeme.Spelled [] first.text first.rest :=
        cut_spelled (by simp [BreaksDigits])
      have hlexeme : first.lexeme ≠ .blank := by
        intro hblank
        rw [hblank] at htoken
        cases htoken
      have hkept := hspelled.ease hlexeme (eases_blankText first.rest)
      rw [map_keepIf_true, scan_eq_of_spelled (cut_text_ne_nil c rest) hkept,
        List.filter_cons_of_pos (by simpa [Piece.isGap] using hlexeme),
        List.filter_cons_of_pos (by exact htoken), ← ih]

/-! ### Tokens and faults of the new text -/

/-- Is the fault a string that is never closed? -/
def LexicalFault.isUnterminated : LexicalFault → Bool
  | unterminatedString _ => true
  | _ => false

/-- A gap holds nothing, so tokens and faults are found among the other pieces. -/
theorem filterMap_filter_isGap {α : Type} {read : Piece → Option α}
    (h : ∀ piece : Piece, piece.lexeme = .blank → read piece = none) (pieces : List Piece) :
    (pieces.filter fun piece => !piece.isGap).filterMap read = pieces.filterMap read := by
  rw [List.filterMap_filter]
  refine congrArg (List.filterMap · pieces) (funext fun piece => ?_)
  by_cases hblank : piece.lexeme = .blank
  · simp [Piece.isGap, hblank, h piece hblank]
  · simp [Piece.isGap, hblank]

theorem filterMap_token?_filter (pieces : List Piece) :
    (pieces.filter fun piece => piece.lexeme.isToken).filterMap Piece.token? =
      pieces.filterMap Piece.token? := by
  rw [List.filterMap_filter]
  refine congrArg (List.filterMap · pieces) (funext fun piece => ?_)
  obtain ⟨lexeme, text, span⟩ := piece
  cases lexeme <;> rfl

theorem filterMap_fault?_filter (pieces : List Piece) :
    (pieces.filter fun piece => piece.lexeme.isToken).filterMap Piece.fault? =
      (pieces.filterMap Piece.fault?).filter LexicalFault.isUnterminated := by
  rw [List.filterMap_filter, List.filter_filterMap]
  refine congrArg (List.filterMap · pieces) (funext fun piece => ?_)
  obtain ⟨lexeme, text, span⟩ := piece
  cases lexeme <;> rfl

/-- **What is no token may as well be blank.** With blanks for all characters but line ends that
belong to no token, a source text has the same tokens at the same places, and of what was wrong with
it only the strings that are never closed are left. -/
theorem tokens_blankOut (source : String) :
    tokens (blankOut source) = tokens source ∧
      lexicalFaults (blankOut source) =
        (lexicalFaults source).filter LexicalFault.isUnterminated := by
  have hpieces : (pieces (blankOut source)).filter (fun piece => !piece.isGap) =
      (pieces source).filter fun piece => piece.lexeme.isToken := by
    rw [pieces, toList_blankOut, filter_scan_blankText]
    rfl
  constructor
  · have hgap (piece : Piece) (h : piece.lexeme = .blank) : piece.token? = none := by
      rw [Piece.token?, h]
    rw [tokens, ← filterMap_filter_isGap hgap, hpieces, filterMap_token?_filter]
    rfl
  · have hgap (piece : Piece) (h : piece.lexeme = .blank) : piece.fault? = none := by
      rw [Piece.fault?, h]
    rw [lexicalFaults, ← filterMap_filter_isGap hgap, hpieces, filterMap_fault?_filter]
    rfl

example : blankOut "console/**/.log(1)&2 // é" = "console    .log(1) 2     " := by decide +kernel

end Offside
