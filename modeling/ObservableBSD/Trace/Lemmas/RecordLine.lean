import ObservableBSD.Base.Utf8
import ObservableBSD.Decode.Lemmas.Escape
import ObservableBSD.Decode.Lemmas.StackBuf
import ObservableBSD.Json.Lemmas.Layout
import ObservableBSD.Trace.Lemmas.Meta
import ObservableBSD.Trace.Lemmas.Timing
import ObservableBSD.Trace.RecordLine

/-!
# What `json_escape` and `fmt_record_json` write

The writes of `json_escape` stay in its buffer and leave the escaped text there. A series of texts that fits a buffer is
printed as a whole, and the one of a record is a JSON object.
-/

namespace ObservableBSD.Trace

open Base Decode Export

variable {dstlen pos : Nat} {c : UInt8} {src : CString}

/-! ## The writes of `json_escape` -/

theorem length_escapeByte (c : UInt8) : 0 < (escapeByte c).length ∧ (escapeByte c).length ≤ 6 := by
  unfold escapeByte
  repeat' split
  all_goals simp [cstr]

theorem byteWrites_cases (dstlen pos : Nat) (c : UInt8) (h : pos + 7 < dstlen) :
    byteWrites dstlen pos c = putString pos (escapeByte c ++ [0]) ∨
      byteWrites dstlen pos c = putString pos (escapeByte c) := by
  have hlen := length_escapeByte c
  unfold byteWrites
  split
  · rw [List.take_of_length_le (by omega)]
    exact Or.inl rfl
  · exact Or.inr rfl

theorem index_of_mem_byteWrites {w : ByteWrite} (h : pos + 7 < dstlen) (hw : w ∈ byteWrites dstlen pos c) :
    pos ≤ w.index ∧ w.index < dstlen := by
  have hlen := length_escapeByte c
  rcases byteWrites_cases dstlen pos c h with heq | heq <;> rw [heq] at hw
  · have hindex := index_of_mem_putString hw
    rw [List.length_append, List.length_singleton] at hindex
    omega
  · have hindex := index_of_mem_putString hw
    omega

theorem index_of_mem_jsonEscapeWritesFrom {w : ByteWrite} (hpos : pos < dstlen)
    (hw : w ∈ jsonEscapeWritesFrom dstlen pos src) : w.index < dstlen := by
  induction src generalizing pos with
  | nil =>
      obtain rfl := List.mem_singleton.mp hw
      exact hpos
  | cons c src ih =>
      have hlen := length_escapeByte c
      rw [jsonEscapeWritesFrom] at hw
      split at hw
      · rename_i hroom
        rcases List.mem_append.mp hw with hw | hw
        · exact (index_of_mem_byteWrites hroom hw).2
        · exact ih (by omega) hw
      · obtain rfl := List.mem_singleton.mp hw
        exact hpos

theorem holdsAt_byteWrites {mem : Memory} {dst : CString} (h : dst.length + 7 < dstlen) (hdst : HoldsAt mem 0 dst) :
    HoldsAt (writeAll mem (byteWrites dstlen dst.length c)) 0 (dst ++ escapeByte c) := by
  have hstart : 0 + dst.length = dst.length := Nat.zero_add _
  rcases byteWrites_cases dstlen dst.length c h with heq | heq <;> rw [heq, ← hstart]
  · have hnul := hdst.putString (escapeByte c ++ [0])
    rw [← List.append_assoc] at hnul
    exact (holdsAt_append.mp hnul).1
  · exact hdst.putString (escapeByte c)

theorem holdsAt_jsonEscapeWritesFrom {mem : Memory} {dst : CString} (hdst : HoldsAt mem 0 dst) :
    HoldsAt (writeAll mem (jsonEscapeWritesFrom dstlen dst.length src)) 0 (jsonEscapeFrom dstlen dst src ++ [0]) := by
  have hend : ∀ {mem : Memory} {dst : CString}, HoldsAt mem 0 dst →
      HoldsAt (writeAll mem [{ index := dst.length, byte := 0 }]) 0 (dst ++ [0]) := by
    intro mem dst hdst
    have hnul := hdst.putString [0]
    rwa [Nat.zero_add] at hnul
  induction src generalizing mem dst with
  | nil => exact hend hdst
  | cons c src ih =>
      rw [jsonEscapeWritesFrom, jsonEscapeFrom]
      split
      · rename_i hroom
        rw [writeAll_append, ← List.length_append]
        exact ih (holdsAt_byteWrites hroom hdst)
      · exact hend hdst

theorem length_jsonEscape_lt (h : 0 < dstlen) (src : CString) : (jsonEscape dstlen src).length < dstlen := by
  have hfrom : ∀ (src dst : CString), dst.length < dstlen → (jsonEscapeFrom dstlen dst src).length < dstlen := by
    intro src
    induction src with
    | nil => exact fun dst hdst => hdst
    | cons c src ih =>
        intro dst hdst
        have hlen := length_escapeByte c
        rw [jsonEscapeFrom]
        split
        · refine ih _ ?_
          rw [List.length_append]
          omega
        · exact hdst
  exact hfrom src [] h

/-! ## The text behind the escapes -/

/-- Between quotation marks, `body` is a JSON string that stands for `s`, byte by byte. -/
def StringBody (body s : CString) : Prop :=
  ∀ rest, Json.readString (body.length + 1) (byteText body ++ '"' :: rest) = some (byteText s, rest)

theorem byteText_escapeByte (c : UInt8) : byteText (escapeByte c) = escapeScalar (byteChar c) := by
  have h : ∀ n < 256, byteText (escapeByte (UInt8.ofNat n)) = escapeScalar (Char.ofNat n) := by decide +kernel
  simpa [byteChar] using h c.toNat c.toNat_lt

theorem byteText_escapeBytes (s : CString) : byteText (escapeBytes s) = escapeJSON (byteText s) := by
  induction s with
  | nil => rfl
  | cons c s ih =>
      have hcons : escapeBytes (c :: s) = escapeByte c ++ escapeBytes s := rfl
      rw [hcons, byteText_append, ih, byteText_escapeByte]
      rfl

theorem stringBody_escapeBytes (s : CString) : StringBody (escapeBytes s) s := by
  intro rest
  have hbody : swift.body (byteText s) = byteText (escapeBytes s) := (byteText_escapeBytes s).symm
  rw [← hbody]
  refine Json.readString_body swift ?_
  rw [hbody, byteText, List.length_map]
  exact Nat.lt_succ_self _

theorem escapedPart_whole (hroom : pos + (escapeBytes src).length + 7 ≤ dstlen) : escapedPart dstlen pos src = src := by
  induction src generalizing pos with
  | nil => rfl
  | cons c src ih =>
      have hcons : escapeBytes (c :: src) = escapeByte c ++ escapeBytes src := rfl
      have hlen := length_escapeByte c
      rw [hcons, List.length_append] at hroom
      rw [escapedPart, if_pos (by omega), ih (by omega)]

/-! ## Pieces of a line -/

theorem snprintfString_whole {size : Nat} {s : CString} (hsize : size ≤ intMax) (hroom : pos + s.length < size) :
    snprintfString pos (size - pos) s = some (putString pos (s ++ [0]), s.length) := by
  rw [snprintfString_of_le (by omega) (by omega), List.take_of_length_le (by omega)]

theorem holdsAt_piece {mem : Memory} {line : CString} (h : HoldsAt mem 0 line) (s : CString) :
    HoldsAt (writeAll mem (putString line.length (s ++ [0]))) 0 (line ++ s ++ [0]) := by
  have hput := h.putString (s ++ [0])
  rwa [Nat.zero_add, ← List.append_assoc] at hput

/-- What fits the buffer is printed as a whole behind the line so far. -/
theorem printPieces_spec {size : Nat} (hsize : size ≤ intMax) {line s : CString} {ss : List CString}
    (hroom : line.length + (s :: ss).flatten.length < size) :
    ∃ offs ws, printPieces size line.length (s :: ss) = some (offs, ws) ∧ (∀ off ∈ offs, off < size) ∧
      ∀ mem : Memory, HoldsAt mem 0 line → HoldsAt (writeAll mem ws) 0 (line ++ (s :: ss).flatten ++ [0]) := by
  rw [List.flatten_cons, List.length_append] at hroom
  have hprint := snprintfString_whole (s := s) hsize (by omega : line.length + s.length < size)
  induction ss generalizing line s with
  | nil =>
      refine ⟨[line.length], putString line.length (s ++ [0]), ?_, ?_, ?_⟩
      · rw [printPieces, if_neg (by omega), hprint]
        simp [printPieces]
      · intro off hoff
        obtain rfl := List.mem_singleton.mp hoff
        omega
      · intro mem hmem
        simpa using holdsAt_piece hmem s
  | cons s' ss ih =>
      rw [List.flatten_cons, List.length_append] at hroom
      have hroom' : (line ++ s).length + (s'.length + ss.flatten.length) < size := by
        rw [List.length_append]
        omega
      obtain ⟨offs, ws, hrest, hoffs, hmemory⟩ := ih hroom' (snprintfString_whole hsize (by omega))
      refine ⟨line.length :: offs, putString line.length (s ++ [0]) ++ ws, ?_, ?_, ?_⟩
      · rw [List.length_append] at hrest
        rw [printPieces, if_neg (by omega), hprint]
        simp [hrest]
      · exact List.forall_mem_cons.mpr ⟨by omega, hoffs⟩
      · intro mem hmem
        have hfirst := (holdsAt_append.mp (holdsAt_piece hmem s)).1
        rw [writeAll_append, List.flatten_cons, ← List.append_assoc]
        exact hmemory _ hfirst

/-! ## The JSON object -/

/-- The member of a string, byte by byte. -/
def stringMember (name : String) (s : CString) : Text × Json.Value := (text name, .string (byteText s))

def intMember (name : String) (v : Int) : Text × Json.Value := (text name, .number (.ofInt v))

def hexAddr (addr : UInt64) : CString := cstr "0x" ++ numeral 16 addr.toNat

def fieldMembers (rec : BsdtraceRecord) (path : CString) : List (Text × Json.Value) :=
  match rec.type with
  | .mmap | .executable | .kernel =>
      (if rec.fullpath = [] then [] else [stringMember "path" path]) ++
      [stringMember "address" (hexAddr rec.addr), stringMember "base_address" (hexAddr rec.baseaddr)]
  | .munmap => if rec.addr ≠ 0 then [stringMember "address" (hexAddr rec.addr)] else []
  | .threadCreate | .threadSetName => [intMember "thread_id" rec.threadId.toInt]
  | .buffer | .overflow =>
      [intMember "buf_id" (Int32.ofInt rec.bufId).toInt, intMember "page" (Int32.ofInt rec.curpage).toInt,
        intMember "offset" rec.offset.toNat]
  | .unknown _ => []

/-- The object that the line of a record is, with what it shows of the path. -/
def recordObject (tm : Tm) (rec : BsdtraceRecord) (pid : Int32) (path : CString) : Json.Value :=
  .object (stringMember "timestamp" (timestamp tm) :: stringMember "kind" (recordTypeName rec.type) ::
    intMember "pid" pid.toInt :: fieldMembers rec path)

def memberText (m : Text × Json.Value) : Text := swift.quote m.1 ++ (':' :: swift.render m.2)

theorem byteText_intNumeral (v : Int) : byteText (intNumeral v) = Json.intChars v := by
  unfold intNumeral Json.intChars
  split
  · rw [← byteText_numeral]
    rfl
  · exact byteText_numeral _

theorem memberText_string {name : String} {opening : Char} {pre body s : CString}
    (hpre : byteText pre = opening :: (swift.quote (text name) ++ [':', '"']))
    (hbody : byteText body = escapeJSON (byteText s)) :
    byteText (pre ++ (body ++ cstr "\"")) = opening :: memberText (stringMember name s) := by
  have hquote : byteText (cstr "\"") = ['"'] := by decide
  rw [byteText_append, byteText_append, hpre, hbody, hquote, memberText, stringMember, Json.Escaper.render,
    Json.Escaper.quote]
  simp [Json.Escaper.quote, Json.Escaper.body, escapeJSON, swift]

theorem memberText_int {name : String} {opening : Char} {pre : CString}
    (hpre : byteText pre = opening :: (swift.quote (text name) ++ [':'])) (v : Int) :
    byteText (pre ++ intNumeral v) = opening :: memberText (intMember name v) := by
  rw [byteText_append, hpre, byteText_intNumeral, memberText, intMember, Json.Escaper.render]
  simp [Json.JsonNumber.ofInt]

/-! ## Plain text of a record -/

theorem byteText_of_plain {s : CString} (h : Plain s) : byteText s = escapeJSON (byteText s) := by
  have hsame : escapeBytes s = s := by
    induction s with
    | nil => rfl
    | cons c s ih =>
        have hrest := ih fun d hd => h d (List.mem_cons_of_mem c hd)
        rw [escapeBytes, List.flatMap_cons, escapeByte_plain (h c List.mem_cons_self)]
        exact congrArg (c :: ·) hrest
  rw [← byteText_escapeBytes, hsame]

theorem plain_numeral {radix : Nat} (h2 : 2 ≤ radix) (hr : radix ≤ 36) (n : Nat) : Plain (numeral radix n) := by
  intro c hc
  have hdigit := isDigit_of_mem_numeral h2 hr hc
  have hge := isDigit_plain hdigit
  refine ⟨?_, ?_, by omega⟩
  · rintro rfl
    exact absurd hge (by decide)
  · rintro rfl
    simp [isDigit, digitValue?] at hdigit

theorem plain_zeroPadded (width : Nat) (v : Int) : Plain (zeroPadded width v) := by
  have hpad : ∀ n, Plain ((numeral 10 v.natAbs).leftpad n 48) := by
    intro n c hc
    rcases List.mem_append.mp hc with hc | hc
    · obtain rfl := (List.mem_replicate.mp hc).2
      decide
    · exact plain_numeral (by omega) (by omega) _ c hc
  unfold zeroPadded
  split
  · exact List.forall_mem_cons.mpr ⟨by decide, hpad _⟩
  · exact hpad _

theorem plain_timestamp (tm : Tm) : Plain (timestamp tm) := by
  unfold timestamp
  refine .append (plain_zeroPadded _ _) (.append ?_ (.append (plain_zeroPadded _ _) (.append ?_
    (.append (plain_zeroPadded _ _) (.append ?_ (.append (plain_zeroPadded _ _) (.append ?_
      (.append (plain_zeroPadded _ _) (.append ?_ (.append (plain_zeroPadded _ _) ?_))))))))))
  all_goals exact plain_of_all rfl

theorem plain_recordTypeName (type : HwtRecordType) : Plain (recordTypeName type) := by
  cases type <;> exact plain_of_all rfl

theorem plain_hexAddr (addr : UInt64) : Plain (hexAddr addr) :=
  .append (plain_of_all rfl) (plain_numeral (by omega) (by omega) _)

/-! ## The text of the line -/

theorem byteText_recordHead (tm : Tm) (type : HwtRecordType) (pid : Int32) :
    byteText (recordHead tm type pid) = '\x7b' :: (memberText (stringMember "timestamp" (timestamp tm)) ++
      ',' :: (memberText (stringMember "kind" (recordTypeName type)) ++
        ',' :: memberText (intMember "pid" pid.toInt))) := by
  have hkind : cstr "\",\"kind\":\"" = cstr "\"" ++ cstr ",\"kind\":\"" := by decide
  have hpid : cstr "\",\"pid\":" = cstr "\"" ++ cstr ",\"pid\":" := by decide
  have hparts : recordHead tm type pid = (cstr "\x7b\"timestamp\":\"" ++ (timestamp tm ++ cstr "\"")) ++
      ((cstr ",\"kind\":\"" ++ (recordTypeName type ++ cstr "\"")) ++ (cstr ",\"pid\":" ++ intNumeral pid.toInt)) := by
    simp only [recordHead, hkind, hpid, List.append_assoc]
  have htime : byteText (cstr "\x7b\"timestamp\":\"" ++ (timestamp tm ++ cstr "\"")) =
      '\x7b' :: memberText (stringMember "timestamp" (timestamp tm)) :=
    memberText_string (by decide) (byteText_of_plain (plain_timestamp tm))
  have htype : byteText (cstr ",\"kind\":\"" ++ (recordTypeName type ++ cstr "\"")) =
      ',' :: memberText (stringMember "kind" (recordTypeName type)) :=
    memberText_string (by decide) (byteText_of_plain (plain_recordTypeName type))
  have hnumber : byteText (cstr ",\"pid\":" ++ intNumeral pid.toInt) = ',' :: memberText (intMember "pid" pid.toInt) :=
    memberText_int (by decide) pid.toInt
  rw [hparts, byteText_append (_ ++ _), byteText_append (_ ++ _), htime, htype, hnumber]
  simp

theorem byteText_hexField {name : String} {pre : CString}
    (hpre : byteText pre = ',' :: (swift.quote (text name) ++ text ":\"0x")) (addr : UInt64) :
    byteText (pre ++ (numeral 16 addr.toNat ++ cstr "\"")) = ',' :: memberText (stringMember name (hexAddr addr)) := by
  have hopen : byteText (cstr "\"") = ['"'] ∧ text ":\"0x" = [':', '"'] ++ byteText (cstr "0x") := by decide
  have hbody : swift.body (byteText (hexAddr addr)) = byteText (hexAddr addr) :=
    (byteText_of_plain (plain_hexAddr addr)).symm
  rw [byteText_append, byteText_append, hpre, hopen.1, hopen.2, memberText, stringMember, Json.Escaper.render,
    Json.Escaper.quote, Json.Escaper.quote, hbody, hexAddr, byteText_append]
  simp

theorem byteText_recordFields (rec : BsdtraceRecord) :
    byteText (recordFields rec).flatten =
      (fieldMembers rec (escapedPart (maxPathLen * 2) 0 rec.fullpath)).flatMap fun m => ',' :: memberText m := by
  have haddress : ∀ addr, byteText (addressField addr) = ',' :: memberText (stringMember "address" (hexAddr addr)) :=
    byteText_hexField (by decide)
  have hbase : ∀ addr : UInt64, byteText (cstr ",\"base_address\":\"0x" ++ (numeral 16 addr.toNat ++ cstr "\"")) =
      ',' :: memberText (stringMember "base_address" (hexAddr addr)) := byteText_hexField (by decide)
  have hpath : byteText (cstr ",\"path\":\"" ++ (jsonEscape (maxPathLen * 2) rec.fullpath ++ cstr "\"")) =
      ',' :: memberText (stringMember "path" (escapedPart (maxPathLen * 2) 0 rec.fullpath)) := by
    refine memberText_string (by decide) ?_
    rw [jsonEscape_eq, byteText_escapeBytes]
  have hbuffer : byteText (bufferField rec) = ',' :: (memberText (intMember "buf_id" (Int32.ofInt rec.bufId).toInt) ++
      ',' :: (memberText (intMember "page" (Int32.ofInt rec.curpage).toInt) ++
        ',' :: memberText (intMember "offset" rec.offset.toNat))) := by
    have hoffset : numeral 10 rec.offset.toNat = intNumeral rec.offset.toNat := by simp [intNumeral]
    have hid : byteText (cstr ",\"buf_id\":" ++ intNumeral (Int32.ofInt rec.bufId).toInt) =
        ',' :: memberText (intMember "buf_id" (Int32.ofInt rec.bufId).toInt) := memberText_int (by decide) _
    have hpage : byteText (cstr ",\"page\":" ++ intNumeral (Int32.ofInt rec.curpage).toInt) =
        ',' :: memberText (intMember "page" (Int32.ofInt rec.curpage).toInt) := memberText_int (by decide) _
    have hoff : byteText (cstr ",\"offset\":" ++ intNumeral rec.offset.toNat) =
        ',' :: memberText (intMember "offset" rec.offset.toNat) := memberText_int (by decide) _
    rw [bufferField, hoffset, ← List.append_assoc, ← List.append_assoc (cstr ",\"page\":"), byteText_append, hid,
      byteText_append, hpage, hoff]
    simp
  rw [byteText_flatten]
  unfold recordFields fieldMembers
  cases htype : rec.type with
  | mmap | executable | kernel =>
      have hboth := byteText_append (addressField rec.addr)
        (cstr ",\"base_address\":\"0x" ++ (numeral 16 rec.baseaddr.toNat ++ cstr "\""))
      rw [haddress, hbase] at hboth
      by_cases hempty : rec.fullpath = [] <;> simp [hempty, hboth, hpath]
  | munmap => by_cases hzero : rec.addr = 0 <;> simp [hzero, haddress]
  | threadCreate | threadSetName =>
      have hthread : byteText (cstr ",\"thread_id\":" ++ intNumeral rec.threadId.toInt) =
          ',' :: memberText (intMember "thread_id" rec.threadId.toInt) := memberText_int (by decide) _
      simpa using hthread
  | buffer | overflow => simpa using hbuffer
  | unknown _ => rfl

theorem parse_recordPieces (tm : Tm) (rec : BsdtraceRecord) (pid : Int32) :
    Json.parse (byteText (recordPieces tm rec pid).flatten) =
      some (recordObject tm rec pid (escapedPart (maxPathLen * 2) 0 rec.fullpath)) := by
  have hend : byteText (cstr "\x7d\n") = ['\x7d', '\n'] := by decide
  have hrender : byteText (recordPieces tm rec pid).flatten =
      swift.render (recordObject tm rec pid (escapedPart (maxPathLen * 2) 0 rec.fullpath)) ++ ['\n'] := by
    rw [recordPieces, List.flatten_cons, List.flatten_append, List.flatten_singleton, byteText_append, byteText_append,
      byteText_recordHead, byteText_recordFields, hend, recordObject, Json.Escaper.render, stringMember,
      Json.Escaper.renderMembers_cons, List.flatMap_cons, List.flatMap_cons]
    simp [memberText]
  have hreads : Json.Reads _ (recordObject tm rec pid (escapedPart (maxPathLen * 2) 0 rec.fullpath)) :=
    fun _ _ => Json.parseValue_render swift _
  rw [hrender]
  exact hreads.parse ['\n'] rfl

/-! ## The length of the line -/

theorem fits_zeroPadded {width : Nat} {v : Int} (hwidth : width ≤ 11) (hv : v.natAbs < 10 ^ 10) :
    Fits 11 (zeroPadded width v) := by
  have hlen : (numeral 10 v.natAbs).length ≤ 10 := length_numeral_le (by omega) (by omega) hv
  refine ⟨(plain_zeroPadded width v).printable, ?_⟩
  unfold zeroPadded
  split
  · rw [List.length_cons, List.length_leftpad]
    omega
  · rw [List.length_leftpad]
    omega

theorem fits_timestamp (tm : Tm) : Fits 72 (timestamp tm) := by
  have hsum : ∀ (width : Nat) (v : Int32) (k : Nat), width ≤ 11 → k ≤ 1900 →
      Fits 11 (zeroPadded width (v.toInt + k)) := by
    intro width v k hwidth hk
    have hlow := v.le_toInt
    have hhigh := v.toInt_lt
    exact fits_zeroPadded hwidth (by omega)
  have hfield : ∀ (v : Int32), Fits 11 (zeroPadded 2 v.toInt) := fun v => by
    simpa using hsum 2 v 0 (by decide) (by decide)
  have hsep : ∀ b : UInt8, 32 ≤ b.toNat → Fits 1 [b] := fun b hb => ⟨List.forall_mem_singleton.mpr hb, Nat.le_refl 1⟩
  unfold timestamp
  exact (hsum 4 tm.year 1900 (by decide) (by decide)).append ((hsep 45 (by decide)).append
    ((hsum 2 tm.mon 1 (by decide) (by decide)).append ((hsep 45 (by decide)).append ((hfield tm.mday).append
      ((hsep 84 (by decide)).append ((hfield tm.hour).append ((hsep 58 (by decide)).append ((hfield tm.min).append
        ((hsep 58 (by decide)).append ((hfield tm.sec).append (hsep 90 (by decide))))))))))))

theorem fits_recordHead (tm : Tm) (type : HwtRecordType) (pid : Int32) : Fits 140 (recordHead tm type pid) := by
  have htype : Fits 15 (recordTypeName type) := by
    refine ⟨(plain_recordTypeName type).printable, ?_⟩
    cases type with
    | unknown _ => exact Nat.le_of_ble_eq_true rfl
    | _ => decide
  unfold recordHead
  exact ((fits_of_all (s := cstr "\x7b\"timestamp\":\"") rfl).append ((fits_timestamp tm).append
    ((fits_of_all (s := cstr "\",\"kind\":\"") rfl).append (htype.append
      ((fits_of_all (s := cstr "\",\"pid\":") rfl).append (fits_int32 pid)))))).mono (by decide)

theorem fits_bufferField (rec : BsdtraceRecord) : Fits 80 (bufferField rec) := by
  have hoffset : Fits 20 (numeral 10 rec.offset.toNat) :=
    fits_numeral (by omega) (by omega) (by omega) (Nat.lt_trans rec.offset.toNat_lt (by decide))
  unfold bufferField
  exact ((fits_of_all (s := cstr ",\"buf_id\":") rfl).append ((fits_int32 _).append
    ((fits_of_all (s := cstr ",\"page\":") rfl).append ((fits_int32 _).append
      ((fits_of_all (s := cstr ",\"offset\":") rfl).append hoffset))))).mono (by decide)

theorem fits_addressField (addr : UInt64) : Fits 40 (addressField addr) := by
  unfold addressField
  exact ((fits_of_all (s := cstr ",\"address\":\"0x") rfl).append ((fits_hex addr).append
    (fits_of_all (s := cstr "\"") rfl))).mono (by decide)

theorem fits_recordFields (rec : BsdtraceRecord) : Fits 2200 (recordFields rec).flatten := by
  have hnone : Fits 0 [] := ⟨nofun, Nat.le_refl 0⟩
  have hbase : Fits 40 (cstr ",\"base_address\":\"0x" ++ (numeral 16 rec.baseaddr.toNat ++ cstr "\"")) :=
    ((fits_of_all (s := cstr ",\"base_address\":\"0x") rfl).append ((fits_hex _).append
      (fits_of_all (s := cstr "\"") rfl))).mono (by decide)
  have hescaped : Fits 2048 (jsonEscape (maxPathLen * 2) rec.fullpath) :=
    ⟨(escaped_jsonEscape _ _).printable, Nat.le_of_lt (length_jsonEscape_lt (by decide) _)⟩
  have hpath : Fits 2060 (cstr ",\"path\":\"" ++ (jsonEscape (maxPathLen * 2) rec.fullpath ++ cstr "\"")) :=
    ((fits_of_all (s := cstr ",\"path\":\"") rfl).append (hescaped.append
      (fits_of_all (s := cstr "\"") rfl))).mono (by decide)
  unfold recordFields
  cases rec.type with
  | mmap | executable | kernel =>
      have hboth := (fits_addressField rec.addr).append hbase
      by_cases hempty : rec.fullpath = []
      · simpa [hempty] using hboth.mono (by decide : _ ≤ 2200)
      · simpa [hempty] using (hpath.append hboth).mono (by decide : _ ≤ 2200)
  | munmap =>
      by_cases hzero : rec.addr = 0
      · simpa [hzero] using hnone.mono (by decide : _ ≤ 2200)
      · simpa [hzero] using (fits_addressField rec.addr).mono (by decide : _ ≤ 2200)
  | threadCreate | threadSetName =>
      have hthread := (fits_of_all (s := cstr ",\"thread_id\":") rfl).append (fits_int32 rec.threadId)
      simpa using hthread.mono (by decide : _ ≤ 2200)
  | buffer | overflow => simpa using (fits_bufferField rec).mono (by decide : _ ≤ 2200)
  | unknown _ => exact hnone.mono (by decide)

/-- The whole line is printed, and it is the only one. -/
theorem fmtRecordJson_eq (mem : Memory) (tm : Tm) (rec : BsdtraceRecord) (pid : Int32) :
    ∃ offs body, fmtRecordJson mem tm rec pid = some (offs, (recordPieces tm rec pid).flatten) ∧
      (∀ off ∈ offs, off < lineSize) ∧ (recordPieces tm rec pid).flatten = body ++ [10] ∧ 10 ∉ body := by
  have hbody : Fits 2341 (recordHead tm rec.type pid ++ ((recordFields rec).flatten ++ cstr "\x7d")) :=
    (fits_recordHead tm rec.type pid).append ((fits_recordFields rec).append (fits_of_all (s := cstr "\x7d") rfl))
  have hline : (recordPieces tm rec pid).flatten =
      recordHead tm rec.type pid ++ ((recordFields rec).flatten ++ cstr "\x7d") ++ [10] := by
    rw [recordPieces, List.flatten_cons, List.flatten_append, List.flatten_singleton, lineEnd_eq.1]
    simp only [List.append_assoc]
  have hlen : (recordPieces tm rec pid).flatten.length < lineSize := by
    have hshort := hbody.short
    rw [hline, List.length_append, List.length_singleton, lineSize]
    omega
  have hnul : 0 ∉ (recordPieces tm rec pid).flatten := by
    rw [hline, List.mem_append]
    rintro (hmem | hmem)
    · exact absurd (hbody.printable 0 hmem) (by decide)
    · cases List.mem_singleton.mp hmem
  have hroom : ([] : CString).length + (recordPieces tm rec pid).flatten.length < lineSize := by
    rw [List.length_nil, Nat.zero_add]
    exact hlen
  obtain ⟨offs, ws, hprint, hoffs, hmemory⟩ := printPieces_spec (by decide : lineSize ≤ intMax) hroom
  refine ⟨offs, _, ?_, hoffs, hline, hbody.printable.not_newline⟩
  have hread : readString (writeAll mem ws) 0 lineSize = some (recordPieces tm rec pid).flatten :=
    readString_of_holdsAt (hmemory mem trivial) hnul hlen
  have hpieces : printPieces lineSize 0 (recordPieces tm rec pid) = some (offs, ws) := hprint
  rw [fmtRecordJson, hpieces, Option.bind_eq_bind, Option.bind_some]
  simp only [hread, Option.bind_eq_bind, Option.bind_some]

end ObservableBSD.Trace
