import ObservableBSD.Base.Utf8
import ObservableBSD.Decode.Collapsed
import ObservableBSD.Decode.Insn
import ObservableBSD.Json.Parser
import ObservableBSD.Trace.Format

/-!
# Printing collapsed stacks

`collapsed_print` prints a table line by line, `speedscope_print` as a JSON document for speedscope.
Allocation is taken to succeed.
-/

namespace ObservableBSD.Decode

open Base Trace

/-- The tokens that `strtok_r` finds one after another. -/
def strtok (delim : UInt8) (s : CString) : List CString := (s.splitOn delim).filter (· ≠ [])

/-! ## `collapsed_print` -/

/-- The part of a token behind its last colon; the whole token when it has none. -/
def behindLastColon (tok : CString) : CString := (tok.reverse.takeWhile (· ≠ 58)).reverse

def collapsedStackMatches (stack : CString) (opts : Option PtDecodeOpts) : Bool :=
  match opts with
  | none => true
  | some o =>
      if o.filterFuncs.length = 0 then true
      else (strtok 59 stack).any fun tok => filterMatches opts (some (behindLastColon tok))

def collapsedCmpCount (ea eb : CollapsedEntry) : Bool := eb.count ≤ ea.count

/-- The entries that `collapsed_print` prints. -/
def collapsedLines (entries : List CollapsedEntry) (opts : Option PtDecodeOpts) : List CollapsedEntry :=
  (entries.mergeSort collapsedCmpCount).filter fun e => collapsedStackMatches e.stack opts

def collapsedPrint (entries : List CollapsedEntry) (opts : Option PtDecodeOpts) : CString :=
  (collapsedLines entries opts).flatMap fun e => e.stack ++ (cstr " " ++ (numeral 10 e.count ++ cstr "\n"))

/-! ## `speedscope_print` -/

/-- The frames behind the call, and the index it returns. -/
def speedscopeFrameIdx (frames : List CString) (name : CString) : List CString × Nat :=
  match frames.idxOf? name with
  | some i => (frames, i)
  | none => (frames ++ [name], frames.length)

/-- Phase 1, which collects the frames of all stacks. -/
def speedscopeFrames (entries : List CollapsedEntry) : List CString :=
  entries.foldl (fun frames e =>
    (strtok 59 e.stack).foldl (fun frames tok => (speedscopeFrameIdx frames tok).1) frames) []

/-- The loop over the tokens of a stack in phase 2: the frames behind it, and the index of each token. -/
def speedscopeSample (frames : List CString) : List CString → List CString × List Nat
  | [] => (frames, [])
  | tok :: toks =>
      let (frames, idx) := speedscopeFrameIdx frames tok
      let (frames, sample) := speedscopeSample frames toks
      (frames, idx :: sample)

/-- Phase 2: the frames behind it, and the sample of each entry. -/
def speedscopeSamples (frames : List CString) : List CollapsedEntry → List CString × List (List Nat)
  | [] => (frames, [])
  | e :: entries =>
      let (frames, sample) := speedscopeSample frames (strtok 59 e.stack)
      let (frames, samples) := speedscopeSamples frames entries
      (frames, sample :: samples)

/-- Texts with a comma behind each but the last, and `gap` behind each. -/
def withCommas (gap : CString) : List CString → CString
  | [] => []
  | [s] => s ++ gap
  | s :: t :: rest => s ++ 44 :: (gap ++ withCommas gap (t :: rest))

def frameLine (frame : CString) : CString :=
  cstr "    \x7b\"name\": \"" ++ (jsonEscape 256 frame ++ cstr "\"\x7d")

def sampleLine (sample : List Nat) : CString :=
  cstr "      [" ++ (withCommas [] (sample.map (numeral 10)) ++ cstr "]")

/-- What is printed in front of the frames. -/
def speedscopeHead : CString :=
  cstr "\x7b\n" ++ (cstr "  \"$schema\": \"https://www.speedscope.app/file-format-spec.json\",\n" ++
    cstr "  \"shared\": \x7b\"frames\": [\n")

/-- What is printed behind the frames. -/
def speedscopeTail (samples : List (List Nat)) (weights : List Nat) (totalWeight : Nat) : CString :=
  cstr "  ]\x7d,\n" ++ (cstr "  \"profiles\": [\x7b\n" ++ (cstr "    \"type\": \"sampled\",\n" ++
    (cstr "    \"name\": \"bsdtrace\",\n" ++ (cstr "    \"unit\": \"none\",\n" ++
    (cstr "    \"startValue\": 0,\n" ++ (cstr "    \"endValue\": " ++ (numeral 10 totalWeight ++ (cstr ",\n" ++
    (cstr "    \"samples\": [\n" ++ (withCommas (cstr "\n") (samples.map sampleLine) ++ (cstr "    ],\n" ++
    (cstr "    \"weights\": [" ++ (withCommas [] (weights.map (numeral 10)) ++ (cstr "]\n" ++
    (cstr "  \x7d],\n" ++ (cstr "  \"name\": \"bsdtrace trace\",\n" ++
    (cstr "  \"exporter\": \"bsdtrace\"\n" ++ cstr "\x7d\n")))))))))))))))))

def speedscopePrint (entries : List CollapsedEntry) : CString :=
  let frames := speedscopeFrames entries
  let weights := entries.map CollapsedEntry.count
  speedscopeHead ++ (withCommas (cstr "\n") (frames.map frameLine) ++
    speedscopeTail (speedscopeSamples frames entries).2 weights weights.sum)

/-! ## Reading the document -/

/-- What a document says about the samples of its first profile. -/
structure SpeedscopeProfile where
  frames : List (List Char)
  samples : List (List Nat)
  weights : List Nat
  endValue : Nat

def natValue? (v : Json.Value) : Option Nat := v.int?.bind fun n => if 0 ≤ n then some n.toNat else none

def natValues? (v : Json.Value) : Option (List Nat) := v.array?.bind fun elems => elems.mapM natValue?

def frameName? (v : Json.Value) : Option (List Char) := (v.field? "name".toList).bind Json.Value.string?

def readSpeedscope (v : Json.Value) : Option SpeedscopeProfile := do
  let shared ← v.field? "shared".toList
  let frames ← (← shared.field? "frames".toList).array?
  let profile ← (← (← v.field? "profiles".toList).array?).head?
  let samples ← (← profile.field? "samples".toList).array?
  return {
    frames := ← frames.mapM frameName?
    samples := ← samples.mapM natValues?
    weights := ← natValues? (← profile.field? "weights".toList)
    endValue := ← natValue? (← profile.field? "endValue".toList) }

/-- The folded stack of a sample. -/
def SpeedscopeProfile.stack (p : SpeedscopeProfile) (sample : List Nat) : CString :=
  [59].intercalate (sample.map fun i => utf8 (p.frames.getD i []))

/-- The profile shows these lines, in any order. -/
structure SpeedscopeProfile.Shows (p : SpeedscopeProfile) (lines : List CollapsedEntry) : Prop where
  inRange : ∀ sample ∈ p.samples, ∀ i ∈ sample, i < p.frames.length
  sameLength : p.samples.length = p.weights.length
  endValue : p.endValue = p.weights.sum
  perm : ((p.samples.map p.stack).zip p.weights).Perm (lines.map fun e => (e.stack, e.count))

/-- What is printed is a JSON document, and it shows what `collapsed_print` prints. -/
def SpeedscopeAgrees (entries : List CollapsedEntry) (opts : Option PtDecodeOpts) : Prop :=
  ∃ doc v p, utf8 doc = speedscopePrint entries ∧ Json.parse doc = some v ∧ readSpeedscope v = some p ∧
    p.Shows (collapsedLines entries opts)

end ObservableBSD.Decode
