import Mathlib.Data.List.TakeWhile
import WitnessedLog.Text.Line

/-!
# Written lines are read back

A text is cut at the line feeds that end its lines, and a line at the blanks between its words.
Lines without line feeds and carriage returns, written one after another, are therefore read back
as they are, and so are words without blanks.  Cutting off the blanks at both ends of a text takes
nothing from its lines but the last line feed, if no blank begins the first or ends the last.
-/

namespace WitnessedLog

namespace Text

/-! ## Lines -/

/-- What stands in front of a line feed is lines, whatever follows. -/
theorem lines_append_feed (front rest : List Char) :
    lines (front ++ '\n' :: rest) = (front.splitOn '\n').map dropReturn ++ lines rest := by
  have hrest : rest.splitOn '\n' ≠ [] := List.splitOn_ne_nil '\n' rest
  have hsplit : (front ++ '\n' :: rest).splitOn '\n' =
      front.splitOn '\n' ++ rest.splitOn '\n' :=
    List.splitOnP_append_cons front rest (by decide)
  have hlast : (front.splitOn '\n' ++ rest.splitOn '\n').getLast? = (rest.splitOn '\n').getLast? := by
    rw [List.getLast?_append, List.getLast?_eq_some_getLast hrest, Option.some_or]
  rw [lines, lines, hsplit, hlast, List.dropLast_append_of_ne_nil hrest, List.map_append,
    List.append_assoc]

/-- A line is read off the front of a text. -/
theorem lines_append_newline
    {line : List Char}
    (h : '\n' ∉ line) (rest : List Char) :
    lines (line ++ '\n' :: rest) = dropReturn line :: lines rest := by
  rw [lines_append_feed, List.splitOn_eq_singleton h]
  rfl

theorem dropReturn_eq_self
    {line : List Char}
    (h : '\r' ∉ line) : dropReturn line = line := by
  rw [dropReturn, if_neg]
  intro hlast
  exact h (List.mem_of_getLast? hlast)

theorem toList_join_cons
    (line : String) (written : List String) :
    (String.join ((line :: written).map (· ++ "\n"))).toList =
      line.toList ++ '\n' :: (String.join (written.map (· ++ "\n"))).toList := by
  rw [List.map_cons, String.join_cons, String.toList_append, String.toList_append,
    List.append_assoc]
  rfl

/-- Lines are read off the front of a text. -/
theorem lines_join_append
    {written : List String}
    (h : ∀ line ∈ written, '\n' ∉ line.toList ∧ '\r' ∉ line.toList) (rest : List Char) :
    lines ((String.join (written.map (· ++ "\n"))).toList ++ rest) =
      written.map String.toList ++ lines rest := by
  induction written with
  | nil => rfl
  | cons line written ih =>
      obtain ⟨⟨hnewline, hreturn⟩, hrest⟩ := List.forall_mem_cons.mp h
      rw [toList_join_cons, List.append_assoc, List.cons_append, lines_append_newline hnewline,
        dropReturn_eq_self hreturn, ih hrest]
      rfl

theorem lines_join
    {written : List String}
    (h : ∀ line ∈ written, '\n' ∉ line.toList ∧ '\r' ∉ line.toList) :
    lines (String.join (written.map (· ++ "\n"))).toList = written.map String.toList := by
  have hlines := lines_join_append h []
  rwa [List.append_nil, show lines [] = [] from rfl, List.append_nil] at hlines

/-- What is left at the end of a text is a line. -/
theorem lines_of_notMem
    {line : List Char}
    (hne : line ≠ []) (h : '\n' ∉ line) : lines line = [line] := by
  rw [lines, List.splitOn_eq_singleton h]
  simp [hne]

theorem lines_ne_nil
    {text : List Char}
    (h : text ≠ []) : lines text ≠ [] := by
  by_cases hfeed : '\n' ∈ text
  · obtain ⟨front, back, rfl⟩ := List.append_of_mem hfeed
    rw [lines_append_feed]
    exact List.append_ne_nil_of_left_ne_nil
      (fun hnil => List.splitOn_ne_nil '\n' front (List.map_eq_nil_iff.mp hnil)) _
  · rw [lines_of_notMem h hfeed]
    exact List.cons_ne_nil _ _

/-! ## Blanks at the ends of a text -/

theorem dropWhile_isBlank_eq_self
    {text : List Char}
    (h : ∀ c ∈ text.head?, isBlank c = false) : text.dropWhile isBlank = text := by
  cases text with
  | nil => rfl
  | cons c text => exact List.dropWhile_cons_of_neg (by simp [h c rfl])

/-- Blanks in front of a text are cut off with those that it begins with. -/
theorem trim_blanks_append
    {blanks : List Char}
    (hblanks : ∀ c ∈ blanks, isBlank c = true) (text : List Char) :
    trim (blanks ++ text) = trim text := by
  rw [trim, trim, List.dropWhile_append_of_pos hblanks]

/-- Blanks behind a text are cut off with those that it ends with. -/
theorem trim_append_blanks
    {blanks : List Char}
    (hblanks : ∀ c ∈ blanks, isBlank c = true) (text : List Char) :
    trim (text ++ blanks) = trim text := by
  have hall : blanks.dropWhile isBlank = [] := List.dropWhile_eq_nil_iff.mpr hblanks
  have hreverse : ∀ c ∈ blanks.reverse, isBlank c = true :=
    fun c hc => hblanks c (List.mem_reverse.mp hc)
  rw [trim, trim, List.dropWhile_append]
  split
  · rename_i hempty
    rw [hall, List.isEmpty_iff.mp hempty]
  · rw [List.reverse_append, List.dropWhile_append_of_pos hreverse]

theorem trim_eq_self
    {text : List Char}
    (hfirst : ∀ c ∈ text.head?, isBlank c = false)
    (hlast : ∀ c ∈ text.getLast?, isBlank c = false) : trim text = text := by
  rw [trim, dropWhile_isBlank_eq_self hfirst,
    dropWhile_isBlank_eq_self (by rwa [List.head?_reverse]), List.reverse_reverse]

/-- No blank begins what is left of a text. -/
theorem isBlank_of_mem_head?_trim
    {text : List Char} {c : Char}
    (h : c ∈ (trim text).head?) : isBlank c = false := by
  obtain ⟨rest, hrest⟩ : trim text <+: text.dropWhile isBlank := by
    rw [← List.reverse_suffix, trim, List.reverse_reverse]
    exact List.dropWhile_suffix isBlank
  have hnot := List.head?_dropWhile_not isBlank text
  rw [← hrest, List.head?_append, Option.mem_def.mp h] at hnot
  simpa using hnot

/-- No blank ends what is left of a text. -/
theorem isBlank_of_mem_getLast?_trim
    {text : List Char} {c : Char}
    (h : c ∈ (trim text).getLast?) : isBlank c = false := by
  rw [trim, List.getLast?_reverse, Option.mem_def] at h
  have hnot := List.head?_dropWhile_not isBlank (text.dropWhile isBlank).reverse
  rw [h] at hnot
  simpa using hnot

/-- Only the last line feed is cut off written lines if no blank begins the first or ends the
last. -/
theorem trim_join
    {front : List String} {last : String}
    (hfirst : ∃ line ∈ (front ++ [last]).head?, ∃ c ∈ line.toList.head?, isBlank c = false)
    (hlast : ∃ c ∈ last.toList.getLast?, isBlank c = false) :
    trim (String.join ((front ++ [last]).map (· ++ "\n"))).toList =
      (String.join (front.map (· ++ "\n"))).toList ++ last.toList := by
  obtain ⟨d, hd, hend⟩ := hlast
  have htext : (String.join ((front ++ [last]).map (· ++ "\n"))).toList =
      (String.join (front.map (· ++ "\n"))).toList ++ last.toList ++ ['\n'] := by
    simp [String.toList_join]
  have hhead : ∀ c ∈ ((String.join (front.map (· ++ "\n"))).toList ++ last.toList).head?,
      isBlank c = false := by
    obtain ⟨first, hfirst, c, hc, hstart⟩ := hfirst
    cases front with
    | nil =>
        cases hfirst
        simpa [Option.mem_def.mp hc] using hstart
    | cons line front =>
        cases hfirst
        rw [toList_join_cons, List.append_assoc, List.head?_append, Option.mem_def.mp hc]
        simpa using hstart
  have htail : ∀ c ∈ ((String.join (front.map (· ++ "\n"))).toList ++ last.toList).getLast?,
      isBlank c = false := by
    rw [List.getLast?_append, Option.mem_def.mp hd]
    simpa using hend
  have hfeed : ∀ c ∈ ['\n'], isBlank c = true := List.forall_mem_singleton.mpr (by decide)
  rw [htext, trim_append_blanks hfeed, trim_eq_self hhead htail]

/-- Written lines are read back from the trimmed text if no blank begins the first or ends the
last. -/
theorem lines_trim_join
    {written : List String}
    (h : ∀ line ∈ written, '\n' ∉ line.toList ∧ '\r' ∉ line.toList)
    (hfirst : ∃ line ∈ written.head?, ∃ c ∈ line.toList.head?, isBlank c = false)
    (hlast : ∃ line ∈ written.getLast?, ∃ c ∈ line.toList.getLast?, isBlank c = false) :
    lines (trim (String.join (written.map (· ++ "\n"))).toList) =
      written.map String.toList := by
  obtain ⟨last, hmem, d, hd, hend⟩ := hlast
  obtain ⟨front, rfl⟩ := List.getLast?_eq_some_iff.mp hmem
  obtain ⟨hfront, hline⟩ := List.forall_mem_append.mp h
  have hnewline : '\n' ∉ last.toList := (hline last List.mem_cons_self).1
  have hne : last.toList ≠ [] := List.ne_nil_of_mem (List.mem_of_getLast? hd)
  rw [trim_join hfirst ⟨d, hd, hend⟩, lines_join_append hfront, lines_of_notMem hne hnewline,
    List.map_append]
  rfl

/-! ## Words -/

/-- A text that is one word: not empty, and without blanks. -/
def IsWord (text : String) : Prop :=
  text ≠ "" ∧ ∀ c ∈ text.toList, isBlank c = false

instance (text : String) : Decidable (IsWord text) :=
  -- Only the characters of the text are to be looked at, not all characters.
  have : Decidable (∀ c ∈ text.toList, isBlank c = false) := List.decidableBAll _ _
  inferInstanceAs (Decidable (_ ∧ _))

theorem IsWord.toList_ne_nil
    {text : String}
    (h : IsWord text) : text.toList ≠ [] :=
  fun hnil => h.1 (String.toList_eq_nil_iff.mp hnil)

theorem IsWord.trim_eq
    {text : String}
    (h : IsWord text) : trim text.toList = text.toList :=
  trim_eq_self (fun c hc => h.2 c (List.mem_of_head? hc))
    fun c hc => h.2 c (List.mem_of_getLast? hc)

/-- A blank belongs to no word. -/
theorem words_append_blank
    {blank : Char}
    (h : isBlank blank = true) (front back : List Char) :
    words (front ++ blank :: back) = words front ++ words back := by
  rw [words, words, words, List.splitOnP_append_cons _ _ h, List.filter_append, List.map_append]

theorem IsWord.words_eq
    {text : String}
    (h : IsWord text) : words text.toList = [text] := by
  rw [words, List.splitOnP_eq_singleton h.2,
    List.filter_cons_of_pos (by simpa using h.toList_ne_nil), List.filter_nil,
    List.map_singleton, String.ofList_toList]

theorem toList_intercalate_cons_cons (word next : String) (rest : List String) :
    (" ".intercalate (word :: next :: rest)).toList =
      word.toList ++ ' ' :: (" ".intercalate (next :: rest)).toList := by
  rw [String.intercalate_cons_cons, String.toList_append, String.toList_append, List.append_assoc]
  rfl

theorem words_intercalate
    {written : List String}
    (h : ∀ word ∈ written, IsWord word) : words (" ".intercalate written).toList = written := by
  induction written with
  | nil => rfl
  | cons word written ih =>
      obtain ⟨hword, hrest⟩ := List.forall_mem_cons.mp h
      cases written with
      | nil => rw [String.intercalate_singleton, hword.words_eq]
      | cons next rest =>
          rw [toList_intercalate_cons_cons, words_append_blank (by decide), hword.words_eq,
            ih hrest, List.singleton_append]

/-- Between words there is only the space. -/
theorem eq_space_or_mem_of_mem_intercalate
    {written : List String} {c : Char}
    (h : c ∈ (" ".intercalate written).toList) : c = ' ' ∨ ∃ word ∈ written, c ∈ word.toList := by
  induction written with
  | nil => simp at h
  | cons word written ih =>
      cases written with
      | nil =>
          rw [String.intercalate_singleton] at h
          exact Or.inr ⟨word, List.mem_cons_self, h⟩
      | cons next rest =>
          rw [toList_intercalate_cons_cons, List.mem_append, List.mem_cons] at h
          rcases h with hword | hspace | hrest
          · exact Or.inr ⟨word, List.mem_cons_self, hword⟩
          · exact Or.inl hspace
          · refine (ih hrest).imp id ?_
            rintro ⟨other, hother, hc⟩
            exact ⟨other, List.mem_cons_of_mem _ hother, hc⟩

/-- No blank ends a line of words. -/
theorem exists_getLast?_intercalate
    {written : List String}
    (hne : written ≠ []) (h : ∀ word ∈ written, IsWord word) :
    ∃ c ∈ (" ".intercalate written).toList.getLast?, isBlank c = false := by
  induction written with
  | nil => exact absurd rfl hne
  | cons word written ih =>
      obtain ⟨hword, hrest⟩ := List.forall_mem_cons.mp h
      cases written with
      | nil =>
          have hkept : word.toList ≠ [] := hword.toList_ne_nil
          rw [String.intercalate_singleton]
          exact ⟨_, List.getLast?_eq_some_getLast hkept, hword.2 _ (List.getLast_mem hkept)⟩
      | cons next rest =>
          obtain ⟨c, hc, hblank⟩ := ih (List.cons_ne_nil _ _) hrest
          refine ⟨c, ?_, hblank⟩
          rw [toList_intercalate_cons_cons, List.getLast?_append, List.getLast?_cons,
            Option.mem_def.mp hc]
          rfl

end Text

end WitnessedLog
