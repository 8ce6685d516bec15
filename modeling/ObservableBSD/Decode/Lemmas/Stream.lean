import ObservableBSD.Decode.Lemmas.PtDecoder
import ObservableBSD.Decode.Stream
import ObservableBSD.Json.Lemmas.Number
import ObservableBSD.Trace.Lemmas.RecordLine

/-!
# What the lines of the JSON output say

Each line is an object, printed without a newline of its own, and there is one for each packet or each decoded item
that is shown.
-/

namespace ObservableBSD.Decode

open Base Elf Trace Export

/-! ## Objects -/

/-- What is read behind the colon; of an escaped string, the part that there is room for. -/
def JsonField.value : JsonField → Json.Value
  | .word s => .string (byteText s)
  | .escaped s => .string (byteText (escapedPart escapedSize 0 s))
  | .hex v => .string (byteText (hexAddr v))
  | .integer v => .number (.ofInt v)
  | .null => .null

def memberOf (m : String × JsonField) : Text × Json.Value := (text m.1, m.2.value)

def objectOf (members : List (String × JsonField)) : Json.Value := .object (members.map memberOf)

/-- The objects of the lines. -/
def readObjects (s : CString) : Option (List Json.Value) :=
  (linesOf 10 s).mapM fun line => Json.parse (byteText line)

/-- Printed as it is, the text needs no escape. -/
def JsonField.Bare : JsonField → Prop
  | .word s => Plain s
  | _ => True

def BareName (name : String) : Prop := Plain (cstr name) ∧ byteText (cstr name) = text name

def Bare (members : List (String × JsonField)) : Prop := ∀ m ∈ members, BareName m.1 ∧ m.2.Bare

theorem bare_nil : Bare [] := fun _ hm => absurd hm List.not_mem_nil

theorem bare_cons {name : String} {f : JsonField} {members : List (String × JsonField)} (hname : BareName name)
    (hfield : f.Bare) (h : Bare members) : Bare ((name, f) :: members) := List.forall_mem_cons.mpr ⟨⟨hname, hfield⟩, h⟩

theorem bare_lit {name : String} {f : JsonField} {members : List (String × JsonField)}
    (hplain : (cstr name).all (fun c => c ≠ 34 ∧ c ≠ 92 ∧ 32 ≤ c.toNat) = true)
    (htext : byteText (cstr name) = text name) (hfield : f.Bare) (h : Bare members) : Bare ((name, f) :: members) :=
  bare_cons ⟨plain_of_all hplain, htext⟩ hfield h

theorem Bare.append {ms ns : List (String × JsonField)} (hm : Bare ms) (hn : Bare ns) : Bare (ms ++ ns) :=
  List.forall_mem_append.mpr ⟨hm, hn⟩

theorem byteText_print {f : JsonField} (h : f.Bare) : byteText f.print = swift.render f.value := by
  have hquote : byteText (cstr "\"") = ['"'] := by decide
  have hstring : ∀ {body s : CString}, byteText body = escapeJSON (byteText s) →
      byteText (cstr "\"" ++ (body ++ cstr "\"")) = swift.render (.string (byteText s)) := by
    intro body s hbody
    rw [byteText_append, byteText_append, hquote, hbody, Json.Escaper.render, Json.Escaper.quote]
    rfl
  cases f with
  | word s => exact hstring (byteText_of_plain h)
  | escaped s =>
      refine hstring ?_
      rw [jsonEscape_eq, byteText_escapeBytes]
  | hex v =>
      have hopen : cstr "\"0x" = cstr "\"" ++ cstr "0x" := by decide
      have hprint : (JsonField.hex v).print = cstr "\"" ++ (hexAddr v ++ cstr "\"") := by
        rw [JsonField.print, hopen, hexAddr, List.append_assoc, List.append_assoc]
      rw [hprint]
      exact hstring (byteText_of_plain (plain_hexAddr v))
  | integer v =>
      rw [JsonField.print, JsonField.value, byteText_intNumeral, Json.Escaper.render]
      rfl
  | null =>
      rw [JsonField.value, Json.Escaper.render]
      decide

theorem byteText_printMember {m : String × JsonField} (h : BareName m.1 ∧ m.2.Bare) :
    byteText (printMember m) = memberText (memberOf m) := by
  have hquote : byteText (cstr "\"") = ['"'] ∧ byteText (cstr "\":") = ['"', ':'] := by decide
  have hbody : swift.body (text m.1) = text m.1 := by
    rw [← h.1.2]
    exact (byteText_of_plain h.1.1).symm
  rw [printMember, byteText_append, byteText_append, byteText_append, hquote.1, hquote.2, h.1.2,
    byteText_print h.2, memberText, memberOf, Json.Escaper.quote, hbody]
  simp

theorem byteText_intercalate (ss : List CString) :
    byteText ([44].intercalate ss) = [','].intercalate (ss.map byteText) := by
  induction ss with
  | nil => rfl
  | cons s ss ih =>
      cases ss with
      | nil => simp
      | cons t ts =>
          have hcomma : byteText [44] = [','] := by decide
          rw [List.intercalate_cons_cons, byteText_append, byteText_append, ih, hcomma]
          simp only [List.map_cons, List.intercalate_cons_cons]

theorem renderMembers_eq (members : List (Text × Json.Value)) :
    swift.renderMembers members = [','].intercalate (members.map memberText) := by
  induction members with
  | nil => rw [Json.Escaper.renderMembers]; rfl
  | cons m members ih =>
      cases members with
      | nil => rw [Json.Escaper.renderMembers]; simp [memberText]
      | cons m' members =>
          rw [Json.Escaper.renderMembers, ih]
          simp [memberText, List.intercalate_cons_cons]

theorem byteText_printObject {members : List (String × JsonField)} (h : Bare members) :
    byteText (printObject members) = swift.render (objectOf members) := by
  have hbraces : byteText (cstr "\x7b") = ['\x7b'] ∧ byteText (cstr "\x7d") = ['\x7d'] := by decide
  have hmembers : (members.map printMember).map byteText = (members.map memberOf).map memberText := by
    rw [List.map_map, List.map_map]
    exact List.map_congr_left fun m hm => byteText_printMember (h m hm)
  rw [printObject, byteText_append, byteText_append, hbraces.1, hbraces.2, byteText_intercalate, hmembers, objectOf,
    Json.Escaper.render, renderMembers_eq]
  rfl

theorem parse_printObject {members : List (String × JsonField)} (h : Bare members) :
    Json.parse (byteText (printObject members)) = some (objectOf members) := by
  rw [byteText_printObject h]
  exact Json.parse_render swift _

/-! ## Lines -/

theorem printable_of_plain {s : CString} (h : Plain s) : Printable s := fun c hc => (h c hc).2.2

theorem printable_print {f : JsonField} (h : f.Bare) : Printable f.print := by
  have hquote : Printable (cstr "\"") := printable_of_all rfl
  cases f with
  | word s => exact hquote.append ((printable_of_plain h).append hquote)
  | escaped s => exact hquote.append ((escaped_jsonEscape _ _).printable.append hquote)
  | hex v =>
      have hopen : Printable (cstr "\"0x") := printable_of_all rfl
      exact hopen.append ((printable_numeral (by omega) (by omega) _).append hquote)
  | integer v => exact printable_intNumeral v
  | null => exact printable_of_all rfl

theorem printable_intercalate {ss : List CString} (h : ∀ s ∈ ss, Printable s) : Printable ([44].intercalate ss) := by
  induction ss with
  | nil => exact fun c hc => absurd hc List.not_mem_nil
  | cons s ss ih =>
      cases ss with
      | nil => simpa using h s List.mem_cons_self
      | cons t ts =>
          have hcomma : Printable [44] := printable_of_all rfl
          rw [List.intercalate_cons_cons]
          exact ((h s List.mem_cons_self).append hcomma).append (ih fun u hu => h u (List.mem_cons_of_mem _ hu))

theorem printable_printObject {members : List (String × JsonField)} (h : Bare members) :
    Printable (printObject members) := by
  have hmembers : ∀ s ∈ members.map printMember, Printable s := by
    intro s hs
    obtain ⟨m, hm, rfl⟩ := List.mem_map.mp hs
    have hopen : Printable (cstr "\"") := printable_of_all rfl
    have hcolon : Printable (cstr "\":") := printable_of_all rfl
    obtain ⟨⟨hname, -⟩, hfield⟩ := h m hm
    exact hopen.append ((printable_of_plain hname).append (hcolon.append (printable_print hfield)))
  have hbrace : Printable (cstr "\x7b") := printable_of_all rfl
  have hclose : Printable (cstr "\x7d") := printable_of_all rfl
  exact hbrace.append ((printable_intercalate hmembers).append hclose)

/-- A line for each of the objects is read back as the objects. -/
theorem readObjects_lines {objects : List (List (String × JsonField))} (h : ∀ members ∈ objects, Bare members) :
    readObjects (objects.flatMap fun members => printObject members ++ [10]) = some (objects.map objectOf) := by
  have hlines : ∀ line ∈ objects.map printObject, (10 : UInt8) ∉ line := by
    intro line hline
    obtain ⟨members, hmembers, rfl⟩ := List.mem_map.mp hline
    exact (printable_printObject (h members hmembers)).not_newline
  have hflat : (objects.flatMap fun members => printObject members ++ [10]) =
      (objects.map printObject).flatMap (· ++ [10]) := by rw [List.flatMap_map]
  rw [readObjects, hflat, linesOf_flatMap hlines]
  clear hlines hflat
  induction objects with
  | nil => rfl
  | cons members objects ih =>
      rw [List.map_cons, List.mapM_cons, parse_printObject (h members List.mem_cons_self),
        ih fun ms hms => h ms (List.mem_cons_of_mem _ hms)]
      rfl

/-! ## Instructions -/

theorem plain_insnClassStr {iclass : PtInsnClass} {label : CString} (h : insnClassStr iclass = some label) :
    Plain label := by
  cases iclass <;> cases h <;> exact plain_of_all rfl

theorem bare_placeMembers (place : InsnPlace) : Bare (placeMembers place) := by
  cases place with
  | symbol name binary off syscall =>
      refine .append (bare_lit rfl rfl trivial (bare_lit rfl rfl trivial (bare_lit rfl rfl trivial
        bare_nil))) ?_
      cases syscall with
      | none => exact bare_nil
      | some name => exact bare_lit rfl rfl trivial bare_nil
  | binary name off => exact bare_lit rfl rfl trivial (bare_lit rfl rfl trivial bare_nil)
  | address => exact bare_nil

/-- The label is one of `insn_class_str`. -/
def DecodeLine.Labelled : DecodeLine → Prop
  | .ptwrite _ _ => True
  | .insn label _ _ _ => Plain label

theorem bare_lineMembers (tid : Int) {line : DecodeLine} (h : line.Labelled) : Bare (lineMembers tid line) := by
  cases line with
  | ptwrite payload ip => exact bare_lit rfl rfl trivial (bare_lit rfl rfl trivial bare_nil)
  | insn label ip place tsc =>
      have hhead : Bare [("insn", .word label), ("ip", .hex ip)] :=
        bare_lit rfl rfl h (bare_lit rfl rfl trivial bare_nil)
      have hone : ∀ (b : Prop) [Decidable b] {name : String} {v : Int}, BareName name →
          Bare (if b then [(name, .integer v)] else []) := by
        intro b _ name v hname
        split
        · exact bare_cons hname trivial bare_nil
        · exact bare_nil
      exact ((hhead.append (bare_placeMembers place)).append (hone _ ⟨plain_of_all rfl, rfl⟩)).append
        (hone _ ⟨plain_of_all rfl, rfl⟩)

/-- The line that is shown for a call of the decoder. -/
def callLine (env : DecodeEnv) : PtCall → Option DecodeLine
  | .event (.ok (.ptwrite payload ip)) => some (.ptwrite payload ip)
  | .next (.ok (insn, time)) => (insnClassStr insn.iclass).bind (decodeLine env insn time)
  | _ => none

theorem callLine_labelled {env : DecodeEnv} {call : PtCall} {line : DecodeLine} (h : callLine env call = some line) :
    line.Labelled := by
  unfold callLine at h
  split at h
  · cases h
    trivial
  · obtain ⟨label, hlabel, hline⟩ := Option.bind_eq_some_iff.mp h
    unfold decodeLine at hline
    dsimp only at hline
    split at hline
    · cases hline
      exact plain_insnClassStr hlabel
    · cases hline
  · cases h

theorem decodeAfterCall_lines {env : DecodeEnv} (hfmt : env.fmt = .json) (st : DecodeState) (call : PtCall) :
    ((decodePtInsnBody env).afterCall st call).lines = st.lines ++ (callLine env call).toList := by
  have hcount : ∀ insn time, (decodeCount insn time st).lines = st.lines := by
    intro insn time
    unfold decodeCount
    cases insn.iclass <;> rfl
  cases call with
  | sync r => exact (List.append_nil _).symm
  | event r =>
      cases r with
      | error e => exact (List.append_nil _).symm
      | ok ev => cases ev <;> simp [LoopBody.afterCall, decodePtInsnBody, decodeOnEvent, callLine, hfmt]
  | next r =>
      cases r with
      | error e => cases e <;> exact (List.append_nil _).symm
      | ok i =>
          obtain ⟨insn, time⟩ := i
          simp only [LoopBody.afterCall, decodePtInsnBody, decodeOnInsn, callLine, hfmt]
          cases hlabel : insnClassStr insn.iclass with
          | none => simp [hcount]
          | some label => simp [hcount]

theorem decodePtInsnLoop_lines {env : DecodeEnv} (hfmt : env.fmt = .json) (trace : List PtSegment) :
    (decodePtInsnLoop env trace).2.lines = (decodePtInsnLoop env trace).1.calls.filterMap (callLine env) := by
  have hfold : ∀ (calls : List PtCall) (st : DecodeState), (calls.foldl (decodePtInsnBody env).afterCall st).lines =
      st.lines ++ calls.filterMap (callLine env) := by
    intro calls
    induction calls with
    | nil => exact fun st => (List.append_nil _).symm
    | cons call calls ih =>
        intro st
        rw [List.foldl_cons, ih, decodeAfterCall_lines hfmt, List.append_assoc]
        cases hline : callLine env call <;> simp [hline]
  have hcalls := decodeTrace_calls (decodePtInsnBody env) trace {}
  have hacc := decodeTrace_acc (decodePtInsnBody env) trace {}
  rw [← hcalls] at hacc
  rw [decodePtInsnLoop, hacc]
  exact (hfold _ _).trans (List.nil_append _)

/-! ## Packets -/

theorem plain_tntStr (bufsz : Nat) (payload : UInt64) (bitSize : UInt8) : Plain (tntStr bufsz payload bitSize) := by
  intro c hc
  obtain ⟨i, -, rfl⟩ := List.mem_map.mp hc
  split <;> decide

theorem plain_execModeStr (mode : PtExecMode) : Plain (execModeStr mode) := by
  cases mode <;> exact plain_of_all rfl

theorem bare_packetMembers {pkt : PtPacket} {members : List (String × JsonField)} (h : packetMembers pkt = some members) :
    Bare members := by
  have hip : ∀ payload, (ipMember payload).2.Bare := by
    intro payload
    unfold ipMember
    dsimp only
    split <;> trivial
  have hkind : ∀ {kind : CString} {members}, Plain kind → Bare members → Bare (("pkt", .word kind) :: members) :=
    fun hplain => bare_lit rfl rfl hplain
  cases pkt with
  | psb | psbend | ovf | stop => cases h; exact hkind (plain_of_all rfl) bare_nil
  | tip payload | tipPgd payload | fup payload =>
      cases h
      exact hkind (plain_of_all rfl) (bare_lit rfl rfl (hip payload) bare_nil)
  | tnt payload bitSize =>
      cases h
      exact hkind (plain_of_all rfl) (bare_lit rfl rfl (plain_tntStr _ _ _) bare_nil)
  | mode payload =>
      cases payload with
      | exec mode => cases h; exact hkind (plain_of_all rfl) (bare_lit rfl rfl (plain_execModeStr mode) bare_nil)
      | tsx intx abrt =>
          cases h
          exact hkind (plain_of_all rfl) (bare_lit rfl rfl trivial (bare_lit rfl rfl trivial bare_nil))
      | other => cases h
  | tipPge payload | tsc tsc | cbr ratio => cases h; exact hkind (plain_of_all rfl) (bare_lit rfl rfl trivial bare_nil)
  | pip cr3 nr | ptw ip payload =>
      cases h
      exact hkind (plain_of_all rfl) (bare_lit rfl rfl trivial (bare_lit rfl rfl trivial bare_nil))
  | other => cases h

/-- The packets that the loops of `decode_pt_buffer` get. -/
def deliveredPackets : List PktSegment → List PtPacket
  | [] => []
  | seg :: segs =>
      if seg.fault.isSome then [] else seg.packets ++ if seg.stop = .eos then [] else deliveredPackets segs

theorem emitPacketJson_eq (pkts : List PtPacket) : pkts.flatMap emitPacketJson =
    (pkts.filterMap packetMembers).flatMap fun members => printObject members ++ [10] := by
  have hend : cstr "\n" = [10] := by decide
  induction pkts with
  | nil => rfl
  | cons pkt pkts ih =>
      rw [List.flatMap_cons, ih]
      unfold emitPacketJson
      cases hmembers : packetMembers pkt with
      | none => simp [hmembers]
      | some members => simp [hmembers, hend]

theorem decodePtBufferLoop_out (trace : List PktSegment) (st : PktState) : (decodePtBufferLoop trace st).out =
    st.out ++ ((deliveredPackets trace).filterMap packetMembers).flatMap fun members => printObject members ++ [10] := by
  induction trace generalizing st with
  | nil => exact (List.append_nil _).symm
  | cons seg segs ih =>
      rw [decodePtBufferLoop, deliveredPackets]
      cases hfault : seg.fault with
      | some e => simp
      | none =>
          by_cases hstop : seg.stop = .eos
          · simp [hstop, emitPacketJson_eq]
          · simp [hstop, ih, emitPacketJson_eq]

end ObservableBSD.Decode
