import Strapdown.CommandLine.Text
import Strapdown.Proofs.Yaml.Lossless

/-!
Printed text, line by line and word by word. Numbers are printed as words, so none of them breaks a
line or runs into what stands beside it.
-/
namespace Strapdown.CommandLine
open Decimal
open Yaml (IsWord)

variable {a b line rest word : String} {lines cells : List String} {cs : List Char}

/-- The lines of a text. What comes after the last line break is one of them. -/
def linesOf (text : String) : List String := (text.toList.splitOn '\n').map String.ofList

/-- The words of a line, which are kept apart by spaces. -/
def wordsOf (line : String) : List String :=
  ((line.toList.splitOn ' ').filter (· ≠ [])).map String.ofList

theorem linesOf_cons (h : '\n' ∉ line.toList) :
    linesOf (line ++ "\n" ++ rest) = line :: linesOf rest := by
  have hchars : (line ++ "\n" ++ rest).toList = line.toList ++ '\n' :: rest.toList := by simp
  rw [linesOf, hchars, List.splitOn_eq_splitOnP,
    List.splitOnP_append_cons_of_forall_mem _ _ (by decide), List.map_cons,
    String.ofList_toList, linesOf, List.splitOn_eq_splitOnP]
  exact fun c hc => beq_eq_false_iff_ne.mpr (ne_of_mem_of_not_mem hc h)

theorem linesOf_ofLines (h : ∀ line ∈ lines, '\n' ∉ line.toList) :
    linesOf (ofLines lines ++ rest) = lines ++ linesOf rest := by
  induction lines with
  | nil => simp [ofLines]
  | cons line lines ih =>
    have hsplit : ofLines (line :: lines) ++ rest = line ++ "\n" ++ (ofLines lines ++ rest) := by
      simp [ofLines, String.append_assoc]
    rw [hsplit, linesOf_cons (h line List.mem_cons_self),
      ih fun l hl => h l (List.mem_cons_of_mem line hl)]
    rfl

theorem linesOf_ofLines_self (h : ∀ line ∈ lines, '\n' ∉ line.toList) :
    linesOf (ofLines lines) = lines ++ [""] := by
  have hlines : linesOf (ofLines lines ++ "") = lines ++ linesOf "" := linesOf_ofLines h
  rwa [String.append_empty] at hlines

theorem wordsOf_append_space (a b : String) : wordsOf (a ++ " " ++ b) = wordsOf a ++ wordsOf b := by
  have hchars : (a ++ " " ++ b).toList = a.toList ++ ' ' :: b.toList := by simp
  rw [wordsOf, hchars, List.splitOn_eq_splitOnP, List.splitOnP_append_cons _ _ (by decide),
    List.filter_append, List.map_append]
  rfl

/-- A space is at the end of the one text or at the start of the other. -/
theorem wordsOf_append (h : a.toList.getLast? = some ' ' ∨ b.toList.head? = some ' ') :
    wordsOf (a ++ b) = wordsOf a ++ wordsOf b := by
  have hempty : wordsOf "" = [] := by decide
  rcases h with h | h
  · obtain ⟨cs, hcs⟩ := List.getLast?_eq_some_iff.mp h
    obtain rfl : a = String.ofList cs ++ " " ++ "" := String.toList_injective (by simp [hcs])
    rw [wordsOf_append_space, hempty, List.append_nil, ← wordsOf_append_space]
    simp
  · obtain ⟨cs, hcs⟩ := List.head?_eq_some_iff.mp h
    obtain rfl : b = "" ++ " " ++ String.ofList cs := String.toList_injective (by simp [hcs])
    rw [wordsOf_append_space, hempty, List.nil_append, ← wordsOf_append_space]
    simp [← String.append_assoc]

theorem wordsOf_intercalate (cells : List String) :
    wordsOf (" ".intercalate cells) = cells.flatMap wordsOf := by
  induction cells with
  | nil => decide
  | cons a cells ih =>
    cases cells with
    | nil => simp
    | cons b cells =>
      have hsplit : " ".intercalate (a :: b :: cells) =
          a ++ " " ++ " ".intercalate (b :: cells) :=
        String.toList_injective (by simp)
      rw [hsplit, wordsOf_append_space, ih]
      rfl

theorem wordsOf_padLeft (width : Nat) (s : String) : wordsOf (padLeft width s) = wordsOf s := by
  rw [padLeft]
  induction width - s.length with
  | zero => simp
  | succ n ih =>
    have hsplit : String.ofList (List.replicate (n + 1) ' ') ++ s =
        "" ++ " " ++ (String.ofList (List.replicate n ' ') ++ s) :=
      String.toList_injective (by simp [List.replicate_succ])
    rw [hsplit, wordsOf_append_space, ih]
    rfl

theorem wordsOf_of_isWord (h : IsWord word.toList) : wordsOf word = [word] := by
  have hne : word.toList ≠ [] := by
    obtain ⟨c, hc, -⟩ := h.alphanum
    exact List.ne_nil_of_mem hc
  rw [wordsOf, List.splitOn_eq_splitOnP, List.splitOnP_eq_singleton]
  · simp [hne]
  · intro c hc
    exact beq_eq_false_iff_ne.mpr ((h.chars c hc).ne (by decide))

theorem endsInSpace_append (h : b.toList.getLast? = some ' ') :
    (a ++ b).toList.getLast? = some ' ' := by
  rw [String.toList_append, List.getLast?_append, h]
  rfl

theorem wordsOf_between (ha : a.toList.getLast? = some ' ') (hb : b.toList.head? = some ' ')
    (hw : IsWord word.toList) : wordsOf (a ++ word ++ b) = wordsOf a ++ word :: wordsOf b := by
  rw [wordsOf_append (.inr hb), wordsOf_append (.inl ha), wordsOf_of_isWord hw, List.append_assoc]
  rfl

theorem newline_notMem_of_isWord (h : IsWord word.toList) : '\n' ∉ word.toList :=
  fun hc => absurd (h.chars _ hc) (by decide)

/-! Numbers are words, in any of the ways they are printed. -/

theorem isWord_around_point (h : IsDigits cs) (hne : cs ≠ []) (n : Nat) :
    IsWord (cs.take n ++ '.' :: cs.drop n) := by
  have halphanum {c : Char} (hc : c ∈ cs) : c.isAlphanum = true := by
    rw [Char.isAlphanum, h c hc, Bool.or_true]
  constructor
  · simp only [List.forall_mem_append, List.forall_mem_cons]
    exact ⟨fun c hc => .inl (halphanum (List.mem_of_mem_take hc)), by decide,
      fun c hc => .inl (halphanum (List.mem_of_mem_drop hc))⟩
  · obtain ⟨c, hc⟩ := List.exists_mem_of_ne_nil cs hne
    refine ⟨c, ?_, halphanum hc⟩
    rw [← List.take_append_drop n cs, List.mem_append] at hc
    rw [List.mem_append, List.mem_cons]
    exact hc.imp_right .inr

theorem isWord_layPlaces (places units : Nat) : IsWord (layPlaces places units) :=
  isWord_around_point (isDigits_append (isDigits_zeros _) (isDigits_toDigits units))
    (List.append_ne_nil_of_right_ne_nil _ Nat.toDigits_ne_nil) _

theorem isWord_fixedPlaces (places : Nat) (x : Float32) : IsWord (fixedPlaces places x).toList := by
  rw [fixedPlaces, String.toList_ofList]
  cases Binary.ofFloat32 x with
  | notANumber => exact (by decide : IsWord Style.plain.undefined)
  | infinity sign => exact Yaml.isWord_signed sign (by decide)
  | zero sign => exact Yaml.isWord_signed sign (isWord_layPlaces places 0)
  | finite sign m e hm => exact Yaml.isWord_signed sign (isWord_layPlaces places _)

theorem isWord_plain (x : Float32) : IsWord (Style.plain.write x).toList :=
  Yaml.WritesWords.isWord_write ⟨.inl rfl, by decide, by decide⟩ x

theorem isWord_toString (n : Nat) : IsWord (toString n).toList := by
  rw [show toString n = String.ofList (Nat.toDigits 10 n) from rfl, String.toList_ofList]
  exact Yaml.isWord_toDigits n

/-! A table. -/

/-- The words of a row: the numbers of a record, in columns. -/
def rowWords (r : TelemetryRecord) : List String :=
  [fixedPlaces 3 r.time, fixedPlaces 3 r.attitude.roll, fixedPlaces 3 r.attitude.pitch,
   fixedPlaces 3 r.attitude.yaw, fixedPlaces 5 r.drift]

/-- The words over the columns. -/
def headerWords : List String := ["t", "[s]", "roll", "pitch", "yaw", "drift"]

theorem wordsOf_tableHeader : wordsOf tableHeader = headerWords := by decide

theorem wordsOf_tableRow (r : TelemetryRecord) : wordsOf (tableRow r) = rowWords r := by
  rw [tableRow, wordsOf_intercalate]
  simp [wordsOf_padLeft, wordsOf_of_isWord, isWord_fixedPlaces, rowWords]

theorem newline_notMem_tableRow (r : TelemetryRecord) : '\n' ∉ (tableRow r).toList := by
  simp [tableRow, padLeft, newline_notMem_of_isWord, isWord_fixedPlaces]

/-- A table has one line for each record, in their order, under its header. -/
theorem linesOf_table (records : List TelemetryRecord) (rest : String) :
    linesOf (table records ++ rest) = tableHeader :: records.map tableRow ++ linesOf rest := by
  refine linesOf_ofLines ?_
  rw [List.forall_mem_cons, List.forall_mem_map]
  exact ⟨by decide, fun r _ => newline_notMem_tableRow r⟩

/-! YAML. -/

/-- The lines of a record as an item of a sequence. -/
def recordLines (r : TelemetryRecord) : List String :=
  let number := Yaml.Block.numberStyle.write
  ["- time: " ++ number r.time,
   "  attitude_deg:",
   "    roll: " ++ number r.attitude.roll,
   "    pitch: " ++ number r.attitude.pitch,
   "    yaw: " ++ number r.attitude.yaw,
   "  drift_deg: " ++ number r.drift]

theorem dashed_lines_toBlock (r : TelemetryRecord) :
    Yaml.Block.dashed r.toBlock.lines = recordLines r := by
  simp [TelemetryRecord.toBlock, Euler.toBlock, Yaml.Block.float32, Yaml.Block.lines,
    Yaml.Block.entryLines, Yaml.Block.valueLines, Yaml.Block.dashed, Yaml.Block.indented,
    recordLines, ← String.append_assoc]

theorem itemLines_toBlock (records : List TelemetryRecord) :
    Yaml.Block.itemLines (records.map TelemetryRecord.toBlock) = records.flatMap recordLines := by
  induction records with
  | nil => rfl
  | cons r records ih =>
    rw [List.map_cons, Yaml.Block.itemLines, dashed_lines_toBlock, ih, List.flatMap_cons]

/-- The lines of a sequence of records. -/
def listLines (records : List TelemetryRecord) : List String :=
  if records = [] then ["[]"] else records.flatMap recordLines

theorem length_listLines {records : List TelemetryRecord} (h : records ≠ []) :
    (listLines records).length = 6 * records.length := by
  rw [listLines, if_neg h, List.length_flatMap]
  simp [recordLines, Nat.mul_comm]

theorem listYaml_eq (records : List TelemetryRecord) :
    TelemetryRecord.listYaml records = ofLines (listLines records) := by
  have htext (b : Yaml.Block) : b.text = ofLines b.lines :=
    String.toList_injective (by simp [Yaml.Block.text, ofLines, List.flatMap_map])
  rw [TelemetryRecord.listYaml, htext]
  cases records with
  | nil => rfl
  | cons r records => exact congrArg ofLines (itemLines_toBlock (r :: records))

theorem newline_notMem_recordLines (r : TelemetryRecord) :
    ∀ line ∈ recordLines r, '\n' ∉ line.toList := by
  simp [recordLines, newline_notMem_of_isWord, Yaml.isWord_write]

theorem linesOf_listYaml (records : List TelemetryRecord) (rest : String) :
    linesOf (TelemetryRecord.listYaml records ++ rest) = listLines records ++ linesOf rest := by
  rw [listYaml_eq]
  refine linesOf_ofLines ?_
  rw [listLines]
  split_ifs
  · decide
  · intro line hline
    obtain ⟨r, -, hr⟩ := List.mem_flatMap.mp hline
    exact newline_notMem_recordLines r line hr

/-! The summary. -/

/-- The words for an attitude: its angles under their names. -/
def attitudeWords (q : Quaternion Float32) : List String :=
  let e := (Euler.ofQuaternion q).inDegrees
  ["roll", fixedPlaces 3 e.roll, "pitch", fixedPlaces 3 e.pitch, "yaw", fixedPlaces 3 e.yaw, "deg"]

/-- The words of a summary, line by line; an empty line comes first. -/
def summaryWords (c : Scenario) (report : Simulation.Report) : List (List String) :=
  [[],
   ["rate:", Style.plain.write c.rateHz, "Hz"],
   ["steps:", toString report.steps],
   ["duration:", fixedPlaces 3 report.duration, "s"],
   ["final", "truth:"] ++ attitudeWords report.attitudes.truth,
   ["final", "estimate:"] ++ attitudeWords report.attitudes.estimate,
   ["final", "drift:", fixedPlaces 5 (Numeric.inDegrees report.finalDrift), "deg"],
   ["max", "drift:", fixedPlaces 5 (Numeric.inDegrees report.maxDrift), "deg"]]

theorem attitudeText_eq (q : Quaternion Float32) : attitudeText q =
    "roll " ++ fixedPlaces 3 (Euler.ofQuaternion q).inDegrees.roll ++ "  pitch " ++
      fixedPlaces 3 (Euler.ofQuaternion q).inDegrees.pitch ++ "  yaw " ++
      fixedPlaces 3 (Euler.ofQuaternion q).inDegrees.yaw ++ " deg" := rfl

theorem wordsOf_attitudeText (q : Quaternion Float32) :
    wordsOf (attitudeText q) = attitudeWords q := by
  rw [attitudeText_eq, wordsOf_between (endsInSpace_append (by decide)) (by decide)
      (isWord_fixedPlaces 3 _),
    wordsOf_between (endsInSpace_append (by decide)) (by decide) (isWord_fixedPlaces 3 _),
    wordsOf_between (by decide) (by decide) (isWord_fixedPlaces 3 _)]
  rfl

theorem newline_notMem_attitudeText (q : Quaternion Float32) : '\n' ∉ (attitudeText q).toList := by
  simp [attitudeText_eq, newline_notMem_of_isWord, isWord_fixedPlaces]

theorem summary_eq (c : Scenario) (report : Simulation.Report) : summary c report = ofLines
    ["",
     "rate:           " ++ Style.plain.write c.rateHz ++ " Hz",
     "steps:          " ++ toString report.steps,
     "duration:       " ++ fixedPlaces 3 report.duration ++ " s",
     "final truth:    " ++ attitudeText report.attitudes.truth,
     "final estimate: " ++ attitudeText report.attitudes.estimate,
     "final drift:    " ++ fixedPlaces 5 (Numeric.inDegrees report.finalDrift) ++ " deg",
     "max drift:      " ++ fixedPlaces 5 (Numeric.inDegrees report.maxDrift) ++ " deg"] := rfl

theorem wordsOf_summary (c : Scenario) (report : Simulation.Report) :
    (linesOf (summary c report)).map wordsOf = summaryWords c report ++ [[]] := by
  rw [summary_eq, linesOf_ofLines_self]
  · simp only [List.map_append, List.map_cons, List.map_nil]
    rw [wordsOf_between (by decide) (by decide) (isWord_plain c.rateHz),
      wordsOf_append (.inl (by decide)), wordsOf_of_isWord (isWord_toString report.steps),
      wordsOf_between (by decide) (by decide) (isWord_fixedPlaces 3 report.duration),
      wordsOf_append (.inl (by decide)), wordsOf_attitudeText,
      wordsOf_append (.inl (by decide)), wordsOf_attitudeText,
      wordsOf_between (by decide) (by decide) (isWord_fixedPlaces 5 _),
      wordsOf_between (by decide) (by decide) (isWord_fixedPlaces 5 _)]
    rfl
  · have hsteps := newline_notMem_of_isWord (isWord_toString report.steps)
    rw [Nat.toString_eq_repr, Nat.toList_repr] at hsteps
    simp [hsteps, newline_notMem_of_isWord, isWord_plain, isWord_fixedPlaces,
      newline_notMem_attitudeText]

end Strapdown.CommandLine
