import ObservableBSD.Decode.Lemmas.Escape
import ObservableBSD.Decode.Speedscope
import ObservableBSD.Export.Lemmas.Envelope
import ObservableBSD.Json.Lemmas.Layout

/-!
# The document of `speedscope_print`

Its characters, the value it is read as, and what that value says.
-/

namespace ObservableBSD.Decode

open Base Trace Export Json

/-! ## Characters -/

def frameText (name : Text) : Text := text "    \x7b\"name\": \"" ++ (escapeJSON name ++ text "\"\x7d")

def numbersText (ns : List Nat) : Text := listed [] (ns.map natText)

def sampleText (sample : List Nat) : Text := text "      [" ++ (numbersText sample ++ text "]")

def speedscopeText (p : SpeedscopeProfile) : Text :=
  text "\x7b\n" ++ (text "  \"$schema\": \"https://www.speedscope.app/file-format-spec.json\",\n" ++
    (text "  \"shared\": \x7b\"frames\": [\n" ++ (listed (text "\n") (p.frames.map frameText) ++
    (text "  ]\x7d,\n" ++ (text "  \"profiles\": [\x7b\n" ++ (text "    \"type\": \"sampled\",\n" ++
    (text "    \"name\": \"bsdtrace\",\n" ++ (text "    \"unit\": \"none\",\n" ++
    (text "    \"startValue\": 0,\n" ++ (text "    \"endValue\": " ++ (natText p.endValue ++ (text ",\n" ++
    (text "    \"samples\": [\n" ++ (listed (text "\n") (p.samples.map sampleText) ++ (text "    ],\n" ++
    (text "    \"weights\": [" ++ (numbersText p.weights ++ (text "]\n" ++
    (text "  \x7d],\n" ++ (text "  \"name\": \"bsdtrace trace\",\n" ++
    (text "  \"exporter\": \"bsdtrace\"\n" ++ text "\x7d\n")))))))))))))))))))))

theorem utf8_text {s : String} (h : s.toList.all (fun c => c.toNat < 128) = true) : utf8 (text s) = cstr s :=
  utf8_toList h

theorem utf8_listed (gap : Text) (texts : List Text) :
    utf8 (listed gap texts) = withCommas (utf8 gap) (texts.map utf8) := by
  induction texts with
  | nil => rfl
  | cons cs texts ih =>
      cases texts with
      | nil => exact utf8_append cs gap
      | cons ds texts =>
          rw [listed, utf8_append, utf8_cons, utf8_append, ih]
          rfl

theorem utf8_numbersText (ns : List Nat) : utf8 (numbersText ns) = withCommas [] (ns.map (numeral 10)) := by
  rw [numbersText, utf8_listed, List.map_map]
  exact congrArg (withCommas []) (List.map_congr_left fun n _ => utf8_toDigits n)

theorem utf8_sampleText (sample : List Nat) : utf8 (sampleText sample) = sampleLine sample := by
  rw [sampleText, utf8_append, utf8_append, utf8_numbersText, utf8_text (by decide), utf8_text (by decide)]
  rfl

/-- The line of a frame, when what is left of its name is UTF-8. -/
theorem utf8_frameText {name : Text} {frame : CString} (h : utf8 name = escapedPart 256 0 frame) :
    utf8 (frameText name) = frameLine frame := by
  rw [frameText, utf8_append, utf8_append, ← escapeBytes_utf8, h, ← jsonEscape_eq, utf8_text (by decide),
    utf8_text (by decide)]
  rfl

theorem utf8_speedscopeText {p : SpeedscopeProfile} {frames : List CString}
    (h : p.frames.map utf8 = frames.map (escapedPart 256 0)) :
    utf8 (speedscopeText p) = speedscopeHead ++ (withCommas (cstr "\n") (frames.map frameLine) ++
      speedscopeTail p.samples p.weights p.endValue) := by
  have hframes : (p.frames.map frameText).map utf8 = frames.map frameLine := by
    generalize p.frames = names at h
    induction names generalizing frames with
    | nil => cases frames with
        | nil => rfl
        | cons frame frames => cases h
    | cons name names ih => cases frames with
        | nil => cases h
        | cons frame frames =>
            obtain ⟨hname, hnames⟩ := List.cons.inj h
            simp only [List.map_cons, utf8_frameText hname, ih hnames]
  have hsamples : (p.samples.map sampleText).map utf8 = p.samples.map sampleLine := by
    rw [List.map_map]
    exact List.map_congr_left fun sample _ => utf8_sampleText sample
  have hcount : utf8 (natText p.endValue) = numeral 10 p.endValue := utf8_toDigits p.endValue
  simp (disch := decide) only [speedscopeText, speedscopeHead, speedscopeTail, utf8_append, utf8_text, utf8_listed,
    hframes, hsamples, hcount, utf8_numbersText, List.append_assoc]

/-! ## Value -/

def natValue (n : Nat) : Value := .number (.ofInt n)

def frameObject (name : Text) : Value := .object [(text "name", .string name)]

def profileObject (p : SpeedscopeProfile) : Value :=
  .object [(text "type", .string (text "sampled")), (text "name", .string (text "bsdtrace")),
    (text "unit", .string (text "none")), (text "startValue", natValue 0), (text "endValue", natValue p.endValue),
    (text "samples", .array (p.samples.map fun sample => .array (sample.map natValue))),
    (text "weights", .array (p.weights.map natValue))]

def speedscopeObject (p : SpeedscopeProfile) : Value :=
  .object [(text "$schema", .string (text "https://www.speedscope.app/file-format-spec.json")),
    (text "shared", .object [(text "frames", .array (p.frames.map frameObject))]),
    (text "profiles", .array [profileObject p]), (text "name", .string (text "bsdtrace trace")),
    (text "exporter", .string (text "bsdtrace"))]

theorem reads_nat (n : Nat) : Reads (natText n) (natValue n) := by
  have h := reads_number (.ofInt n)
  exact h

theorem forall₂_map {α : Type} {write : α → Text} {value : α → Value} (elems : List α)
    (h : ∀ elem, Reads (write elem) (value elem)) :
    List.Forall₂ Reads (elems.map write) (elems.map value) := by
  rw [List.forall₂_map_left_iff, List.forall₂_map_right_iff]
  exact List.forall₂_same.2 fun elem _ => h elem

theorem reads_numbers (ns : List Nat) :
    Reads ('[' :: (numbersText ns ++ [']'])) (.array (ns.map natValue)) :=
  reads_listed (forall₂_map ns reads_nat) [] [] [] rfl rfl rfl

theorem reads_sample (sample : List Nat) : Reads (sampleText sample) (.array (sample.map natValue)) :=
  (reads_numbers sample).spaces (text "      ") rfl

theorem reads_frame (name : Text) : Reads (frameText name) (frameObject name) := by
  have hname : Reads (' ' :: swift.quote name) (.string name) := (reads_string swift name).spaces [' '] rfl
  have hmember := readsMembers_last swift (text "name") hname [] rfl
  have h : Reads _ (frameObject name) := hmember.reads.spaces (text "    ") rfl
  have htext : frameText name =
      text "    " ++ '\x7b' :: (swift.quote (text "name") ++ ':' :: (' ' :: swift.quote name ++ ([] ++ ['\x7d']))) := by
    simp only [frameText, swift_quote, List.append_assoc, List.cons_append, List.nil_append]
    rfl
  rw [htext]
  exact h

/-- The text of the profile, from its opening brace to its closing brace. -/
def profileText (p : SpeedscopeProfile) : Text :=
  text "\x7b\n" ++ (text "    \"type\": \"sampled\",\n" ++ (text "    \"name\": \"bsdtrace\",\n" ++
    (text "    \"unit\": \"none\",\n" ++ (text "    \"startValue\": 0,\n" ++
    (text "    \"endValue\": " ++ (natText p.endValue ++ (text ",\n" ++ (text "    \"samples\": [\n" ++
    (listed (text "\n") (p.samples.map sampleText) ++ (text "    ],\n" ++ (text "    \"weights\": [" ++
    (numbersText p.weights ++ (text "]\n" ++ text "  \x7d")))))))))))))

theorem reads_blank_string (s : Text) : Reads (' ' :: swift.quote s) (.string s) := (reads_string swift s).blank

theorem reads_profile (p : SpeedscopeProfile) : Reads (profileText p) (profileObject p) := by
  have hsamples := reads_listed (forall₂_map p.samples reads_sample) (text "\n") (text "\n") (text "    ") rfl rfl rfl
  have hindent : Spaces (text "\n    ") := rfl
  -- from the last member to the first
  have hweights := readsMembers_last swift (text "weights") (reads_numbers p.weights).blank (text "\n  ") rfl
  have hfrom6 := (hweights.spaces _ hindent).cons swift (text "samples") hsamples.blank
  have hfrom5 := (hfrom6.spaces _ hindent).cons swift (text "endValue") (reads_nat p.endValue).blank
  have hfrom4 := (hfrom5.spaces _ hindent).cons swift (text "startValue") (reads_nat 0).blank
  have hfrom3 := (hfrom4.spaces _ hindent).cons swift (text "unit") (reads_blank_string (text "none"))
  have hfrom2 := (hfrom3.spaces _ hindent).cons swift (text "name") (reads_blank_string (text "bsdtrace"))
  have hfrom1 := (hfrom2.spaces _ hindent).cons swift (text "type") (reads_blank_string (text "sampled"))
  have h : Reads _ (profileObject p) := (hfrom1.spaces _ hindent).reads
  refine (congrArg (Reads · (profileObject p)) ?_).mp h
  simp only [profileText, swift_quote, List.append_assoc, List.cons_append, List.nil_append]
  rfl

set_option maxRecDepth 2000 in
theorem parse_speedscopeText (p : SpeedscopeProfile) : parse (speedscopeText p) = some (speedscopeObject p) := by
  have hframes := reads_listed (forall₂_map p.frames reads_frame) (text "\n") (text "\n") (text "  ") rfl rfl rfl
  have hshared := (readsMembers_last swift (text "frames") hframes.blank [] rfl).reads
  have hprofiles := (readsElements_last (reads_profile p) [] rfl).reads
  have hindent : Spaces (text "\n  ") := rfl
  have hexporter := readsMembers_last swift (text "exporter") (reads_blank_string (text "bsdtrace"))
    (text "\n") rfl
  have hfrom4 := (hexporter.spaces _ hindent).cons swift (text "name") (reads_blank_string (text "bsdtrace trace"))
  have hfrom3 := (hfrom4.spaces _ hindent).cons swift (text "profiles") hprofiles.blank
  have hfrom2 := (hfrom3.spaces _ hindent).cons swift (text "shared") hshared.blank
  have hfrom1 := (hfrom2.spaces _ hindent).cons swift (text "$schema")
    (reads_blank_string (text "https://www.speedscope.app/file-format-spec.json"))
  have h := (hfrom1.spaces _ hindent).reads.parse (text "\n") rfl
  refine (congrArg (parse · = some (speedscopeObject p)) ?_).mp h
  simp only [speedscopeText, profileText, swift_quote, List.append_assoc, List.cons_append, List.nil_append]
  rfl

/-! ## Meaning -/

theorem natValue?_natValue (n : Nat) : natValue? (natValue n) = some n := by
  have h : (natValue n).int? = some (n : Int) := int?_ofInt n
  rw [natValue?, h]
  rfl

theorem natValues?_map (ns : List Nat) : natValues? (.array (ns.map natValue)) = some ns := by
  have h : (ns.map natValue).mapM natValue? = some (ns.map id) := mapM_map_some fun n _ => natValue?_natValue n
  rw [List.map_id] at h
  exact h

theorem readSpeedscope_object (p : SpeedscopeProfile) : readSpeedscope (speedscopeObject p) = some p := by
  have hframes : (p.frames.map frameObject).mapM frameName? = some (p.frames.map id) :=
    mapM_map_some fun _ _ => rfl
  have hsamples : (p.samples.map fun sample => Value.array (sample.map natValue)).mapM natValues? =
      some (p.samples.map id) := mapM_map_some fun ns _ => natValues?_map ns
  rw [List.map_id] at hframes hsamples
  have hend := natValue?_natValue p.endValue
  have hweights := natValues?_map p.weights
  have hread : readSpeedscope (speedscopeObject p) =
      ((p.frames.map frameObject).mapM frameName?).bind fun frames =>
        ((p.samples.map fun sample => Value.array (sample.map natValue)).mapM natValues?).bind fun samples =>
          (natValues? (.array (p.weights.map natValue))).bind fun weights =>
            (natValue? (natValue p.endValue)).bind fun endValue =>
              some { frames, samples, weights, endValue } := rfl
  rw [hread, hframes, hsamples, hweights, hend]
  rfl

end ObservableBSD.Decode
