import ObservableBSD.Decode.Lemmas.Stream

/-!
# Results about the JSON output of the decoder
-/

namespace ObservableBSD.Decode

open Base Elf Trace

/-- What is shown of the packets. -/
def packetObjects (buf : List UInt8) (trace : Option (List PktSegment)) : List Json.Value :=
  if buf = [] then [] else ((deliveredPackets (trace.getD [])).filterMap packetMembers).map objectOf

/-- What is shown of a buffer: an object for each PTWRITE and for each instruction that the filter lets through, or one
for each packet. -/
def shownObjects (lib : PtLibrary) (input : DecodeInput) (buf : List UInt8) : List Json.Value :=
  if buf = [] then []
  else if input.sections = [] then packetObjects buf lib.packets
  else match buildPtImage input.qsort input.files input.bytes input.sections with
    | none => packetObjects buf lib.packets
    | some image => match lib.insns image with
        | none => []
        | some trace =>
            let calls := (decodePtInsnLoop (input.env image) trace).1.calls
            (calls.filterMap (callLine (input.env image))).map fun line => objectOf (lineMembers input.tid line)

theorem readObjects_decodePtBuffer (buf : List UInt8) (trace : Option (List PktSegment)) :
    readObjects (decodePtBuffer buf trace).1 = some (packetObjects buf trace) := by
  unfold decodePtBuffer packetObjects
  by_cases hbuf : buf = []
  · simp [hbuf, readObjects, linesOf]
  · cases trace with
    | none => simp [hbuf, readObjects, linesOf, deliveredPackets]
    | some trace =>
        have hout := decodePtBufferLoop_out trace {}
        rw [List.nil_append] at hout
        have hbare : ∀ members ∈ (deliveredPackets trace).filterMap packetMembers, Bare members := by
          intro members hmembers
          obtain ⟨pkt, -, hpkt⟩ := List.mem_filterMap.mp hmembers
          exact bare_packetMembers hpkt
        simp only [hbuf, if_false, hout, Option.getD_some, readObjects_lines hbare]

/-- Each line of the output is a JSON object, and they are those of what libipt delivers, one after the other. -/
theorem readObjects_decodePtInsnJson (lib : PtLibrary) (input : DecodeInput) (buf : List UInt8) :
    readObjects (decodePtInsnJson lib input buf).1 = some (shownObjects lib input buf) := by
  have hpackets := readObjects_decodePtBuffer buf lib.packets
  unfold decodePtInsnJson shownObjects
  by_cases hbuf : buf = []
  · simp [hbuf, readObjects, linesOf]
  · by_cases hsections : input.sections = []
    · simpa only [hbuf, hsections, if_true, if_false] using hpackets
    · simp only [hbuf, hsections, if_false]
      cases buildPtImage input.qsort input.files input.bytes input.sections with
      | none => exact hpackets
      | some image =>
          dsimp only
          cases lib.insns image with
          | none => simp [readObjects, linesOf]
          | some trace =>
              have hlines := decodePtInsnLoop_lines (show (input.env image).fmt = .json from rfl) trace
              have hend : cstr "\n" = [10] := by decide
              have hflat := List.flatMap_map (lineMembers input.tid) (fun members => printObject members ++ [10])
                ((decodePtInsnLoop (input.env image) trace).1.calls.filterMap (callLine (input.env image)))
              have hbare : ∀ members ∈ ((decodePtInsnLoop (input.env image) trace).1.calls.filterMap
                  (callLine (input.env image))).map (lineMembers input.tid), Bare members := by
                intro members hmembers
                obtain ⟨line, hline, rfl⟩ := List.mem_map.mp hmembers
                obtain ⟨call, -, hcall⟩ := List.mem_filterMap.mp hline
                exact bare_lineMembers _ (callLine_labelled hcall)
              have hread := readObjects_lines hbare
              rw [hflat, List.map_map] at hread
              simp only [hlines, hend]
              exact hread

end ObservableBSD.Decode
