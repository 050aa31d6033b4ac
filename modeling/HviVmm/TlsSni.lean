/-
The server name of a TLS ClientHello (`parse_tls_sni` in `devices::virtio::net`).

A ClientHello is a chain of length fields: a record holds a handshake message, which holds five
fields of any length and then a block of extensions, one of which may hold a list of names.  The
parser walks it with one cursor.  It reads the lengths of the record and of the message from
nowhere, cuts the length of the block at the end of the buffer, and compares neither the block
with an extension nor the list with a name in it.

* `parseTlsSni_total` — no index is outside the buffer;
* `SniWalk.parse`, `exists_walk` — the byte strings in which a name is found are the walks: the
  fields in their order, whatever the lengths that the cursor skips;
* `parseTlsSni_nested` — what is returned lies in nested lengths exactly if a walk that there is
  has lengths that agree; `parseTlsSni_cut_short` — a message that is cut short is read as well;
* `parseTlsSni_complete` — the name of a well-formed ClientHello is found whatever follows it,
  exactly if it has a block of extensions; `parseTlsSni_past_record` — where there is none, the
  bytes after the record are taken for one.
-/
import HviVmm.SliceReads

open ByteCodec Checked SliceReads

/-- `u8::is_ascii_graphic` -/
def isAsciiGraphic (b : UInt8) : Bool := decide (0x21 ≤ b) && decide (b ≤ 0x7e)

/-- What the data of a server_name extension names: list_len(2), name_type(1), name_len(2), name. -/
def serverName (data : List UInt8) : Checked (List UInt8) := do
  ensure (decide (5 ≤ data.length))
  let nameType ← index data 2
  ensure (nameType == 0)
  let nlen ← indexU16 data 3
  let name ← getRange data 5 (5 + nlen)
  ensure (!name.isEmpty && name.all isAsciiGraphic)
  return name

/-- The loop over the extensions, at offset `p`. -/
def sniLoop (body : List UInt8) (extEnd p : ℕ) : Checked (List UInt8) :=
  if p + 4 ≤ extEnd then do
    let etype ← indexU16 body p
    let elen ← indexU16 body (p + 2)
    let data ← getRange body (p + 4) (p + 4 + elen)
    if etype == 0 then serverName data else sniLoop body extEnd (p + (4 + elen))
  else refused
termination_by extEnd - p

/-- Past session_id, cipher suites and compression methods. -/
def skipFields (body : List UInt8) (p : ℕ) : Checked ℕ := do
  let sid ← get body p
  let cs ← getU16 body (p + (1 + sid.toNat))
  let cm ← get body (p + (1 + sid.toNat) + (2 + cs))
  return p + (1 + sid.toNat) + (2 + cs) + (1 + cm.toNat)

/-- A name that is returned is ASCII, so `from_utf8_lossy` leaves it as it is. -/
def parseTlsSni (rec : List UInt8) : Checked (List UInt8) := do
  -- TLS record: content_type(1)=0x16 handshake, version(2), length(2)
  ensure (decide (5 ≤ rec.length))
  let contentType ← index rec 0
  ensure (contentType == 0x16)
  let body ← getFrom rec 5
  -- handshake: msg_type(1)=0x01 ClientHello, length(3)
  ensure (decide (4 ≤ body.length))
  let msgType ← index body 0
  ensure (msgType == 0x01)
  -- handshake header(4), client_version(2), random(32)
  let p ← skipFields body (4 + (2 + 32))
  let extTotal ← getU16 body p
  sniLoop body (min (p + 2 + extTotal) body.length) (p + 2)

/-! ### No panic -/

theorem serverName_total (data : List UInt8) : (serverName data).Total := by
  refine .ensure_bind fun hlen => ?_
  have hlen : 5 ≤ data.length := of_decide_eq_true hlen
  refine (index_total (by omega)).bind fun nameType _ => .ensure_bind fun _ => ?_
  refine (indexU16_total (by omega)).bind fun nlen _ => ?_
  exact (getRange_total _ _ _).bind fun name _ => .ensure_bind fun _ => .done _

theorem sniLoop_total {body : List UInt8} {extEnd : ℕ} (hend : extEnd ≤ body.length) (p : ℕ) :
    (sniLoop body extEnd p).Total := by
  -- the cursor goes up by four at least
  induction hleft : extEnd - p using Nat.strong_induction_on generalizing p with
  | _ left ih =>
    rw [sniLoop]
    split
    · next hp =>
      refine (indexU16_total (by omega)).bind fun etype _ => ?_
      refine (indexU16_total (by omega)).bind fun elen _ => ?_
      refine (getRange_total _ _ _).bind fun data _ => ?_
      split
      · exact serverName_total data
      · exact ih _ (by omega) _ rfl
    · exact .refused

theorem skipFields_total (body : List UInt8) (p : ℕ) : (skipFields body p).Total := by
  refine (get_total _ _).bind fun sid _ => (getU16_total _ _).bind fun cs _ => ?_
  exact (get_total _ _).bind fun cm _ => .done _

/-- **Every index is inside the buffer.** -/
theorem parseTlsSni_total (rec : List UInt8) : (parseTlsSni rec).Total := by
  refine .ensure_bind fun hrec => ?_
  have hrec : 5 ≤ rec.length := of_decide_eq_true hrec
  refine (index_total (by omega)).bind fun contentType _ => .ensure_bind fun _ => ?_
  refine (getFrom_total _ _).bind fun body _ => .ensure_bind fun hbody => ?_
  have hbody : 4 ≤ body.length := of_decide_eq_true hbody
  refine (index_total (by omega)).bind fun msgType _ => .ensure_bind fun _ => ?_
  refine (skipFields_total _ _).bind fun p _ => (getU16_total _ _).bind fun extTotal _ => ?_
  exact sniLoop_total (min_le_right _ _) _

/-! ### The format -/

/-- An extension: type(2), length(2), data. -/
def encodeExtension (kind : UInt16) (data : List UInt8) : List UInt8 :=
  beBytes 2 kind.toNat ++ beBytes 2 data.length ++ data

structure Extension where
  kind : UInt16
  data : List UInt8
  data_lt : data.length < 65536

namespace Extension

def encode (e : Extension) : List UInt8 := encodeExtension e.kind e.data

def encodeAll (es : List Extension) : List UInt8 := es.flatMap encode

theorem encodeAll_cons (e : Extension) (es : List Extension) :
    encodeAll (e :: es) = encodeExtension e.kind e.data ++ encodeAll es := List.flatMap_cons

end Extension

/-- The data of a server_name extension whose list begins with a host_name entry. -/
def serverNameList (name entries : List UInt8) : List UInt8 :=
  0 :: (beBytes 2 name.length ++ name ++ entries)

/-- The fields of a ClientHello before its extensions. -/
structure ClientHello where
  version : List UInt8
  random : List UInt8
  sessionId : List UInt8
  cipherSuites : List UInt8
  compressionMethods : List UInt8
  version_len : version.length = 2
  random_len : random.length = 32
  sessionId_lt : sessionId.length < 256
  cipherSuites_lt : cipherSuites.length < 65536
  compressionMethods_lt : compressionMethods.length < 256

namespace ClientHello

/-- The fields that have a length. -/
def fields (h : ClientHello) : List UInt8 :=
  [UInt8.ofNat h.sessionId.length] ++ h.sessionId ++
    beBytes 2 h.cipherSuites.length ++ h.cipherSuites ++
    [UInt8.ofNat h.compressionMethods.length] ++ h.compressionMethods

def encode (h : ClientHello) : List UInt8 := h.version ++ h.random ++ h.fields

end ClientHello

/-- A block of extensions with its length. -/
def extensionBlock (block : List UInt8) : List UInt8 := beBytes 2 block.length ++ block

/-- A ClientHello message. -/
def handshake (message : List UInt8) : List UInt8 := 0x01 :: (beBytes 3 message.length ++ message)

/-- A handshake record. -/
def tlsRecord (version body : List UInt8) : List UInt8 :=
  0x16 :: (version ++ beBytes 2 body.length ++ body)

/-! ### Reading the format -/

section

variable {body rest : List UInt8} {p extEnd : ℕ}

@[simp] theorem length_encodeExtension (kind : UInt16) (data : List UInt8) :
    (encodeExtension kind data).length = 4 + data.length := by
  simp only [encodeExtension, List.length_append, length_beBytes]

theorem sniLoop_extension {kind : UInt16} {data : List UInt8} (hdata : data.length < 65536)
    (h : body.drop p = encodeExtension kind data ++ rest) (hend : p + 4 ≤ extEnd) :
    sniLoop body extEnd p =
      if kind = 0 then serverName data
      else sniLoop body extEnd (p + (encodeExtension kind data).length) := by
  have hlen := congrArg List.length h
  rw [List.length_drop, List.length_append, length_encodeExtension] at hlen
  rw [encodeExtension, List.append_assoc, List.append_assoc] at h
  have h₂ := drop_after h
  rw [length_beBytes] at h₂
  have h₄ := drop_after h₂
  rw [length_beBytes] at h₄
  have hkind : kind.toNat < 65536 := kind.toNat_lt
  have hzero : (kind.toNat == 0) = decide (kind = 0) := by
    rw [Bool.eq_iff_iff, beq_iff_eq, decide_eq_true_eq, ← UInt16.toNat_inj]
    rfl
  rw [sniLoop, if_pos hend, indexU16_at h hkind, done_bind, indexU16_at h₂ hdata, done_bind,
    getRange_at h₄ (by omega), done_bind, hzero, length_encodeExtension]
  simp only [decide_eq_true_eq]

/-- **Whole extensions**: the loop reads the first server_name extension, or goes on after them. -/
theorem sniLoop_extensions {es : List Extension} (h : body.drop p = Extension.encodeAll es ++ rest)
    (hend : p + (Extension.encodeAll es).length ≤ extEnd) :
    sniLoop body extEnd p = (es.find? fun e => e.kind == 0).elim
      (sniLoop body extEnd (p + (Extension.encodeAll es).length)) fun e => serverName e.data := by
  induction es generalizing p with
  | nil => rfl
  | cons e es ih =>
    rw [Extension.encodeAll_cons, List.append_assoc] at h
    rw [Extension.encodeAll_cons, List.length_append, ← Nat.add_assoc] at hend ⊢
    have hstart : p + 4 ≤ extEnd := by
      rw [length_encodeExtension] at hend
      omega
    rw [sniLoop_extension e.data_lt h hstart]
    split
    · next hkind =>
      rw [List.find?_cons_of_pos (by simpa using hkind)]
      rfl
    · next hkind =>
      rw [List.find?_cons_of_neg (by simpa using hkind)]
      exact ih (drop_after h) hend

end

theorem skipFields_at (h : ClientHello) {body rest : List UInt8} {p : ℕ}
    (hat : body.drop p = h.fields ++ rest) : skipFields body p = done (p + h.fields.length) := by
  simp only [ClientHello.fields, List.append_assoc] at hat
  have hsid := drop_after hat
  have hcs := drop_after hsid
  have hsuites := drop_after hcs
  have hcm := drop_after hsuites
  simp only [List.length_singleton, length_beBytes] at hsid hcs hsuites hcm
  have hsidNat : (UInt8.ofNat h.sessionId.length).toNat = h.sessionId.length := by
    simpa using Nat.mod_eq_of_lt h.sessionId_lt
  have hcmNat : (UInt8.ofNat h.compressionMethods.length).toNat = h.compressionMethods.length := by
    simpa using Nat.mod_eq_of_lt h.compressionMethods_lt
  have hlen : h.fields.length = 4 + h.sessionId.length + h.cipherSuites.length +
      h.compressionMethods.length := by
    simp only [ClientHello.fields, List.length_append, List.length_singleton, length_beBytes]
    omega
  rw [skipFields, get_at hat, done_bind, hsidNat, ← Nat.add_assoc, getU16_at hcs h.cipherSuites_lt,
    done_bind, ← Nat.add_assoc, get_at hcm, done_bind, hcmNat, pure_eq, hlen, done.injEq]
  omega

/-- The parser comes to the length of the block, whatever the lengths of the record and of the
message are. -/
theorem parseTlsSni_fields (h : ClientHello) {header msgLen tail rec body : List UInt8}
    (hheader : header.length = 4) (hmsgLen : msgLen.length = 3)
    (hbody : body = 0x01 :: (msgLen ++ h.encode ++ tail)) (hrec : rec = 0x16 :: (header ++ body)) :
    body.drop (4 + h.encode.length) = tail ∧
      parseTlsSni rec = (getU16 body (4 + h.encode.length) >>= fun extTotal =>
        sniLoop body (min (4 + h.encode.length + 2 + extTotal) body.length)
          (4 + h.encode.length + 2)) := by
  have hrecLen : 5 ≤ rec.length := by
    rw [hrec, List.length_cons, List.length_append, hheader]
    omega
  have hfrom : getFrom rec 5 = done body := by
    rw [getFrom, if_pos hrecLen, hrec, List.drop_succ_cons, ← hheader, List.drop_left]
  have hbodyLen : 4 ≤ body.length := by
    rw [hbody]
    simp only [List.length_cons, List.length_append, hmsgLen]
    omega
  have hfixed : (0x01 :: (msgLen ++ h.version ++ h.random) : List UInt8).length = 38 := by
    simp only [List.length_cons, List.length_append, hmsgLen, h.version_len, h.random_len]
  have hstart : body.drop 0 = (0x01 :: (msgLen ++ h.version ++ h.random)) ++
      (h.fields ++ tail) := by
    rw [hbody, ClientHello.encode]
    simp only [List.drop_zero, List.cons_append, List.append_assoc]
  have hfields := drop_after hstart
  rw [hfixed, Nat.zero_add] at hfields
  have hlen : 38 + h.fields.length = 4 + h.encode.length := by
    simp only [ClientHello.encode, List.length_append, h.version_len, h.random_len]
    omega
  refine ⟨hlen ▸ drop_after hfields, ?_⟩
  rw [parseTlsSni, decide_eq_true hrecLen, ensure_true, done_bind,
    index_at (b := 0x16) (by rw [hrec]; rfl), done_bind, beq_self_eq_true, ensure_true, done_bind,
    hfrom, done_bind, decide_eq_true hbodyLen, ensure_true, done_bind,
    index_at (b := 0x01) (by rw [hbody]; rfl), done_bind, beq_self_eq_true, ensure_true, done_bind,
    skipFields_at h hfields, done_bind, hlen]

theorem parseTlsSni_block (h : ClientHello) {header msgLen tail rec body : List UInt8} {total : ℕ}
    (hheader : header.length = 4) (hmsgLen : msgLen.length = 3) (htotal : total < 65536)
    (hbody : body = 0x01 :: (msgLen ++ h.encode ++ (beBytes 2 total ++ tail)))
    (hrec : rec = 0x16 :: (header ++ body)) :
    ∃ p, p ≤ body.length ∧ body.drop p = tail ∧
      parseTlsSni rec = sniLoop body (min (p + total) body.length) p := by
  obtain ⟨hat, hparse⟩ := parseTlsSni_fields h hheader hmsgLen hbody hrec
  have hlen := congrArg List.length hbody
  simp only [List.length_cons, List.length_append, length_beBytes, hmsgLen] at hlen
  refine ⟨4 + h.encode.length + 2, by omega, drop_after hat, ?_⟩
  rw [hparse, getU16_at hat htotal, done_bind]

/-! ### Layouts -/

/-- A buffer that begins with a ClientHello: a record, the message in it and the block in that,
each followed by what else is in the thing that holds it. -/
def helloBuffer (recordVersion : List UInt8) (hello : ClientHello)
    (block slack more after : List UInt8) : List UInt8 :=
  tlsRecord recordVersion (handshake (hello.encode ++ extensionBlock block ++ slack) ++ more) ++
    after

theorem helloBuffer_eq {recordVersion : List UInt8} (hversion : recordVersion.length = 2)
    (hello : ClientHello) (block slack more after : List UInt8) :
    ∃ header msgLen : List UInt8, header.length = 4 ∧ msgLen.length = 3 ∧
      helloBuffer recordVersion hello block slack more after =
        0x16 :: (header ++ (0x01 :: (msgLen ++ hello.encode ++
          (beBytes 2 block.length ++ (block ++ (slack ++ more ++ after)))))) := by
  refine ⟨recordVersion ++
    beBytes 2 (handshake (hello.encode ++ extensionBlock block ++ slack) ++ more).length,
    beBytes 3 (hello.encode ++ extensionBlock block ++ slack).length, ?_, length_beBytes _ _, ?_⟩
  · rw [List.length_append, hversion, length_beBytes]
  · simp only [helloBuffer, tlsRecord, handshake, extensionBlock, List.cons_append,
      List.append_assoc, List.length_cons, List.length_append]

/-! ### What a name says of the buffer -/

/-- A name comes from the first entry of the list, which is a host_name. -/
theorem serverName_eq_done {data name : List UInt8} (h : serverName data = done name) :
    name ≠ [] ∧ name.all isAsciiGraphic = true ∧
      ∃ listLen entries, listLen.length = 2 ∧ data = listLen ++ serverNameList name entries := by
  simp only [serverName, bind_eq_done, ensure_eq_done, decide_eq_true_eq, beq_iff_eq, pure_eq,
    done.injEq, Bool.and_eq_true] at h
  obtain ⟨-, hlen, nameType, hindex, -, hnameType, nlen, hnlen, name', hrange, -, hgood, rfl⟩ := h
  refine ⟨by simpa using hgood.1, hgood.2, ?_⟩
  match data, hlen with
  | a :: b :: t :: c :: d :: rest, _ =>
    have htype : (a :: b :: t :: c :: d :: rest).drop 2 = t :: c :: d :: rest := rfl
    rw [index_at htype, done.injEq] at hindex
    rw [indexU16_bytes (drop_succ_at htype), done.injEq] at hnlen
    obtain ⟨⟨-, hfits⟩, hname⟩ := getRange_eq_done hrange
    simp only [List.length_cons] at hfits
    rw [Nat.add_sub_cancel_left] at hname
    have hnameLen : name'.length = nlen := by
      rw [hname, List.length_take]
      show min nlen rest.length = nlen
      omega
    have hbytes : beBytes 2 nlen = [c, d] := by
      rw [← hnlen]
      exact beBytes_beNat [c, d]
    refine ⟨[a, b], rest.drop nlen, rfl, ?_⟩
    rw [serverNameList, hnameLen, hbytes, hname, hindex, hnameType, List.append_assoc]
    show _ = a :: b :: 0 :: c :: d :: (rest.take nlen ++ rest.drop nlen)
    rw [List.take_append_drop]

/-- The length of the list is not looked at. -/
theorem serverName_list {listLen name entries : List UInt8} (hlist : listLen.length = 2)
    (hlt : (listLen ++ serverNameList name entries).length < 65536)
    (hne : name ≠ []) (hgraphic : name.all isAsciiGraphic = true) :
    serverName (listLen ++ serverNameList name entries) = done name := by
  generalize hdata : listLen ++ serverNameList name entries = data at hlt
  have hstart : data.drop 0 = listLen ++ serverNameList name entries := hdata.symm
  have htype : data.drop 2 = 0 :: (beBytes 2 name.length ++ (name ++ entries)) := by
    have hat := drop_after hstart
    rwa [hlist, Nat.zero_add, serverNameList, List.append_assoc] at hat
  have hnlen := drop_succ_at htype
  have hname := drop_after hnlen
  rw [length_beBytes] at hname
  have hlen := congrArg List.length hname
  rw [List.length_drop, List.length_append] at hlen
  have hpos : 0 < name.length := List.length_pos_iff.mpr hne
  have hempty : name.isEmpty = false := by simpa using hne
  rw [serverName, decide_eq_true (by omega : 5 ≤ data.length), ensure_true, done_bind,
    index_at htype, done_bind, beq_self_eq_true, ensure_true, done_bind,
    indexU16_at hnlen (by omega), done_bind, getRange_at hname (by omega), done_bind, hempty,
    hgraphic]
  rfl

/-- The name lies in nested lengths: it is the first entry of a list inside the first server_name
extension, inside the block, inside the message, inside the record, inside the buffer. -/
structure SniLayout (name : List UInt8) where
  recordVersion : List UInt8
  hello : ClientHello
  before : List Extension
  /-- What follows the name in the list, the list in the extension, and so on. -/
  entries : List UInt8
  dataRest : List UInt8
  blockRest : List UInt8
  slack : List UInt8
  more : List UInt8
  after : List UInt8
  recordVersion_len : recordVersion.length = 2
  before_kind : ∀ e ∈ before, e.kind ≠ 0
  fits : (handshake (hello.encode ++ extensionBlock (Extension.encodeAll before ++
    encodeExtension 0 (beBytes 2 (serverNameList name entries).length ++
      serverNameList name entries ++ dataRest) ++ blockRest) ++ slack) ++ more).length < 65536

namespace SniLayout

variable {name : List UInt8}

def data (l : SniLayout name) : List UInt8 :=
  beBytes 2 (serverNameList name l.entries).length ++ serverNameList name l.entries ++ l.dataRest

def bytes (l : SniLayout name) : List UInt8 :=
  helloBuffer l.recordVersion l.hello
    (Extension.encodeAll l.before ++ encodeExtension 0 l.data ++ l.blockRest) l.slack l.more l.after

end SniLayout

/-- The declared lengths of the buffer nest around the name. -/
def Nested (rec name : List UInt8) : Prop := ∃ l : SniLayout name, l.bytes = rec

/-! ### What the parser walks over -/

/-- A server_name extension behind the five fields and extensions of other types, all of it in the
buffer.  The lengths of the record, the message, the block and the list may be anything, as long as
the extension begins inside the block. -/
structure SniWalk where
  /-- The version and the length of the record. -/
  header : List UInt8
  msgLen : List UInt8
  hello : ClientHello
  total : ℕ
  before : List Extension
  listLen : List UInt8
  name : List UInt8
  entries : List UInt8
  tail : List UInt8
  header_len : header.length = 4
  msgLen_len : msgLen.length = 3
  total_lt : total < 65536
  before_kind : ∀ e ∈ before, e.kind ≠ 0
  listLen_len : listLen.length = 2
  data_lt : (listLen ++ serverNameList name entries).length < 65536
  starts : (Extension.encodeAll before).length + 4 ≤ total
  name_ne : name ≠ []
  name_graphic : name.all isAsciiGraphic = true

namespace SniWalk

/-- The data of the server_name extension. -/
def data (w : SniWalk) : List UInt8 := w.listLen ++ serverNameList w.name w.entries

def bytes (w : SniWalk) : List UInt8 :=
  0x16 :: (w.header ++ (0x01 :: (w.msgLen ++ w.hello.encode ++ (beBytes 2 w.total ++
    (Extension.encodeAll w.before ++ (encodeExtension 0 w.data ++ w.tail))))))

/-- The lengths that the parser does not compare agree. -/
structure Agrees (w : SniWalk) : Prop where
  record : 5 + beNat (w.header.drop 2) ≤ w.bytes.length
  message : 4 + beNat w.msgLen ≤ beNat (w.header.drop 2)
  block : w.hello.encode.length + 2 + w.total ≤ beNat w.msgLen
  extension : (Extension.encodeAll w.before).length + (4 + w.data.length) ≤ w.total
  list : 2 + beNat w.listLen ≤ w.data.length
  name : 3 + w.name.length ≤ beNat w.listLen

theorem length_data (w : SniWalk) :
    w.data.length = 2 + (3 + w.name.length + w.entries.length) := by
  simp only [data, serverNameList, List.length_cons, List.length_append, length_beBytes,
    w.listLen_len]
  omega

theorem length_bytes (w : SniWalk) : w.bytes.length = 5 + (4 + (w.hello.encode.length + (2 +
    ((Extension.encodeAll w.before).length + (4 + w.data.length + w.tail.length))))) := by
  simp only [bytes, List.length_cons, List.length_append, length_encodeExtension, length_beBytes,
    w.header_len, w.msgLen_len]
  omega

/-- A walk ends with the name. -/
theorem parse (w : SniWalk) : parseTlsSni w.bytes = done w.name := by
  obtain ⟨p, hp, hat, hparse⟩ :=
    parseTlsSni_block w.hello w.header_len w.msgLen_len w.total_lt rfl (rfl : w.bytes = _)
  generalize 0x01 :: (w.msgLen ++ w.hello.encode ++ _) = body at hp hat hparse
  have hlen := congrArg List.length hat
  rw [List.length_drop, List.length_append, List.length_append, length_encodeExtension] at hlen
  have hstarts := w.starts
  have hnone : w.before.find? (fun e => e.kind == 0) = none := by
    rw [List.find?_eq_none]
    intro e he
    simpa using w.before_kind e he
  rw [hparse, sniLoop_extensions hat (by omega), hnone, Option.elim_none,
    sniLoop_extension w.data_lt (drop_after hat) (by omega), if_pos rfl]
  exact serverName_list w.listLen_len w.data_lt w.name_ne w.name_graphic

end SniWalk

theorem skipFields_eq_done {body : List UInt8} {p q : ℕ} (h : skipFields body p = done q)
    (hq : q ≤ body.length) :
    ∃ sid cs cm : List UInt8, sid.length < 256 ∧ cs.length < 65536 ∧ cm.length < 256 ∧
      body.drop p = [UInt8.ofNat sid.length] ++ sid ++ beBytes 2 cs.length ++ cs ++
        [UInt8.ofNat cm.length] ++ cm ++ body.drop q := by
  simp only [skipFields, bind_eq_done, pure_eq, done.injEq] at h
  obtain ⟨a, ha, n, hn, b, hb, rfl⟩ := h
  obtain ⟨hlt, hn⟩ := getU16_eq_done hn
  obtain ⟨sid, hsid, hsidAt⟩ := @drop_split _ body (p + 1) a.toNat (by omega)
  obtain ⟨cs, hcs, hcsAt⟩ := @drop_split _ body (p + (1 + a.toNat) + 2) n (by omega)
  obtain ⟨cm, hcm, hcmAt⟩ :=
    @drop_split _ body (p + (1 + a.toNat) + (2 + n) + 1) b.toNat (by omega)
  refine ⟨sid, cs, cm, hsid ▸ a.toNat_lt, hcs ▸ hlt, hcm ▸ b.toNat_lt, ?_⟩
  rw [get_eq_done ha, hsidAt, hsid, hcm, hcs, UInt8.ofNat_toNat, UInt8.ofNat_toNat]
  have hb := get_eq_done hb
  simp only [Nat.add_assoc] at hn hcsAt hb hcmAt ⊢
  rw [hn, hcsAt, hb, hcmAt]
  simp

/-- Extensions up to a server_name extension. -/
theorem sniLoop_eq_done {body name : List UInt8} {extEnd p : ℕ} (hend : extEnd ≤ body.length)
    (h : sniLoop body extEnd p = done name) :
    ∃ before data tail, (∀ e ∈ before, e.kind ≠ 0) ∧ data.length < 65536 ∧
      body.drop p = Extension.encodeAll before ++ (encodeExtension 0 data ++ tail) ∧
      p + (Extension.encodeAll before).length + 4 ≤ extEnd ∧ serverName data = done name := by
  -- on what is left of the block, as the loop ends
  induction hleft : extEnd - p using Nat.strong_induction_on generalizing p with
  | _ left ih =>
    rw [sniLoop] at h
    split at h
    · next hp =>
      simp only [bind_eq_done] at h
      obtain ⟨etype, htype, elen, helen, data, hdata, h⟩ := h
      obtain ⟨htypeLt, htype⟩ := indexU16_eq_done htype
      obtain ⟨helenLt, helen⟩ := indexU16_eq_done helen
      obtain ⟨⟨-, hin⟩, hdata⟩ := getRange_eq_done hdata
      have hlen : data.length = elen := by
        rw [hdata, List.length_take, List.length_drop]
        omega
      obtain ⟨kind, hkind⟩ : ∃ kind : UInt16, kind.toNat = etype :=
        ⟨UInt16.ofNat etype, by simpa using Nat.mod_eq_of_lt htypeLt⟩
      have hrest : body.drop (p + 4) = data ++ body.drop (p + (4 + elen)) := by
        have hsplit := List.take_append_drop elen (body.drop (p + 4))
        rw [List.drop_drop, Nat.add_assoc] at hsplit
        rw [hdata, Nat.add_sub_cancel_left]
        exact hsplit.symm
      have hext : body.drop p = encodeExtension kind data ++ body.drop (p + (4 + elen)) := by
        rw [htype, helen, hrest, encodeExtension, hkind, hlen, List.append_assoc, List.append_assoc]
      rw [← hkind] at h
      by_cases hzero : kind = 0
      · rw [hzero] at h hext
        exact ⟨[], data, _, by simp, hlen ▸ helenLt, hext, hp, h⟩
      · have hne : (kind.toNat == 0) = false := by
          simpa [← UInt16.toNat_inj] using hzero
        rw [hne] at h
        obtain ⟨before, data', tail, hbefore, hlt, hat, hstart, hname⟩ := ih _ (by omega) h rfl
        refine ⟨⟨kind, data, hlen ▸ helenLt⟩ :: before, data', tail, ?_, hlt, ?_, ?_, hname⟩
        · exact List.forall_mem_cons.mpr ⟨hzero, hbefore⟩
        · rw [hext, hat, Extension.encodeAll_cons, List.append_assoc]
        · rw [Extension.encodeAll_cons, List.length_append, length_encodeExtension, hlen]
          omega
    · cases h

/-- **What is read is a walk.** -/
theorem exists_walk {rec name : List UInt8} (h : parseTlsSni rec = done name) :
    ∃ w : SniWalk, w.bytes = rec ∧ w.name = name := by
  simp only [parseTlsSni, bind_eq_done, ensure_eq_done, decide_eq_true_eq, beq_iff_eq] at h
  obtain ⟨-, hrec, contentType, hcontent, -, rfl, body, hbody, -, hbodyLen, msgType, hmsg, -, rfl,
      p, hfields, total, htotal, h⟩ := h
  obtain ⟨-, rfl⟩ := getFrom_eq_done hbody
  obtain ⟨htotalLt, htotalAt⟩ := getU16_eq_done htotal
  obtain ⟨before, data, tail, hbefore, hdataLt, hat, hstart, hname⟩ :=
    sniLoop_eq_done (min_le_right _ _) h
  obtain ⟨hne, hgraphic, listLen, entries, hlist, rfl⟩ := serverName_eq_done hname
  have hlen := congrArg List.length htotalAt
  rw [List.length_append, length_beBytes, List.length_drop] at hlen
  obtain ⟨sid, cs, cm, hsid, hcs, hcm, hfieldsAt⟩ := skipFields_eq_done hfields (by omega)
  have hpos := congrArg List.length hfieldsAt
  simp only [List.length_append, List.length_singleton, List.length_drop] at hpos
  rw [List.length_drop] at hbodyLen
  -- the fields of fixed length lie in the buffer, as what was read behind them does
  obtain ⟨header, hheader, hheaderAt⟩ := @drop_split _ rec 1 4 (by omega)
  obtain ⟨msgLen, hmsgLen, hmsgAt⟩ :=
    @drop_split _ (rec.drop 5) 1 3 (by rw [List.length_drop]; omega)
  obtain ⟨version, hversion, hversionAt⟩ :=
    @drop_split _ (rec.drop 5) 4 2 (by rw [List.length_drop]; omega)
  obtain ⟨random, hrandom, hrandomAt⟩ :=
    @drop_split _ (rec.drop 5) 6 32 (by rw [List.length_drop]; omega)
  refine ⟨⟨header, msgLen, ⟨version, random, sid, cs, cm, hversion, hrandom, hsid, hcs, hcm⟩, total,
    before, listLen, name, entries, tail, hheader, hmsgLen, htotalLt, hbefore, hlist, hdataLt,
    by omega, hne, hgraphic⟩, ?_, rfl⟩
  have hcontent := index_eq_done hcontent
  have hmsg := index_eq_done hmsg
  rw [List.drop_zero] at hcontent hmsg
  conv_rhs => rw [hcontent, hheaderAt, hmsg, hmsgAt, hversionAt, hrandomAt, hfieldsAt, htotalAt,
    hat]
  simp only [SniWalk.bytes, SniWalk.data, ClientHello.encode, ClientHello.fields, List.append_assoc]

/-- A buffer whose lengths agree is laid out as they say. -/
theorem SniWalk.Agrees.nested {w : SniWalk} (h : w.Agrees) : Nested w.bytes w.name := by
  obtain ⟨hrecord, hmessage, hblock, hextension, hlist, hname⟩ := h
  have hbytes := w.length_bytes
  have hdata := w.length_data
  have hsplit : ∀ (bs : List UInt8) (n : ℕ), n ≤ bs.length → ∃ a b, bs = a ++ b ∧ a.length = n :=
    fun bs n hn =>
      ⟨bs.take n, bs.drop n, (List.take_append_drop n bs).symm, List.length_take_of_le hn⟩
  -- what follows each thing in the thing that holds it
  obtain ⟨entries, dataRest, hentries, hentriesLen⟩ :=
    hsplit w.entries (beNat w.listLen - (3 + w.name.length)) (by omega)
  obtain ⟨blockRest, tail₁, htail, hblockRest⟩ := hsplit w.tail
    (w.total - ((Extension.encodeAll w.before).length + (4 + w.data.length))) (by omega)
  have htailLen := congrArg List.length htail
  rw [List.length_append] at htailLen
  obtain ⟨slack, tail₂, htail₁, hslack⟩ :=
    hsplit tail₁ (beNat w.msgLen - (w.hello.encode.length + 2 + w.total)) (by omega)
  have htail₁Len := congrArg List.length htail₁
  rw [List.length_append] at htail₁Len
  obtain ⟨more, after, htail₂, hmore⟩ :=
    hsplit tail₂ (beNat (w.header.drop 2) - (4 + beNat w.msgLen)) (by omega)
  have hlistLen : beBytes 2 (serverNameList w.name entries).length = w.listLen := by
    refine beBytes_of_beNat w.listLen_len ?_
    simp only [serverNameList, List.length_cons, List.length_append, length_beBytes]
    omega
  have hdataEq : beBytes 2 (serverNameList w.name entries).length ++
      serverNameList w.name entries ++ dataRest = w.data := by
    rw [hlistLen, SniWalk.data, hentries]
    simp [serverNameList]
  have hblockLen : (Extension.encodeAll w.before ++ encodeExtension 0 w.data ++ blockRest).length =
      w.total := by
    rw [List.length_append, List.length_append, length_encodeExtension]
    omega
  have hmessageLen : (w.hello.encode ++ extensionBlock (Extension.encodeAll w.before ++
      encodeExtension 0 w.data ++ blockRest) ++ slack).length = beNat w.msgLen := by
    rw [List.length_append, List.length_append, extensionBlock, List.length_append, hblockLen,
      length_beBytes]
    omega
  have hbodyLen : (handshake (w.hello.encode ++ extensionBlock (Extension.encodeAll w.before ++
      encodeExtension 0 w.data ++ blockRest) ++ slack) ++ more).length =
        beNat (w.header.drop 2) := by
    rw [List.length_append, handshake, List.length_cons, List.length_append, hmessageLen,
      length_beBytes]
    omega
  have hheader : (w.header.drop 2).length = 2 := by rw [List.length_drop, w.header_len]
  refine ⟨⟨w.header.take 2, w.hello, w.before, entries, dataRest, blockRest, slack, more, after, ?_,
    w.before_kind, ?_⟩, ?_⟩
  · rw [List.length_take, w.header_len]
    rfl
  · have hlt := beNat_lt (w.header.drop 2)
    rw [hheader] at hlt
    rw [hdataEq, hbodyLen]
    simpa using hlt
  · simp only [SniLayout.bytes, SniLayout.data, hdataEq, helloBuffer, tlsRecord, hbodyLen,
      beBytes_of_beNat hheader rfl, List.take_append_drop]
    rw [handshake, hmessageLen, beBytes_of_beNat w.msgLen_len rfl, extensionBlock, hblockLen]
    simp only [SniWalk.bytes, htail, htail₁, htail₂, List.cons_append, List.append_assoc]

/-- The lengths of a layout agree. -/
theorem Nested.exists_agrees {rec name : List UInt8} (h : Nested rec name) (hne : name ≠ [])
    (hgraphic : name.all isAsciiGraphic = true) :
    ∃ w : SniWalk, w.bytes = rec ∧ w.name = name ∧ w.Agrees := by
  obtain ⟨l, rfl⟩ := h
  have hfits := l.fits
  have hdata : l.data = beBytes 2 (serverNameList name l.entries).length ++
      serverNameList name (l.entries ++ l.dataRest) := by
    simp [SniLayout.data, serverNameList]
  rw [show beBytes 2 _ ++ serverNameList name l.entries ++ l.dataRest = l.data from rfl] at hfits
  generalize hblock : Extension.encodeAll l.before ++ encodeExtension 0 l.data ++ l.blockRest =
    block at hfits
  generalize hmessage : l.hello.encode ++ extensionBlock block ++ l.slack = message at hfits
  generalize hbody : handshake message ++ l.more = body at hfits
  have hbodyLen := congrArg List.length hbody
  have hmessageLen := congrArg List.length hmessage
  have hblockLen := congrArg List.length hblock
  have hdataLen := congrArg List.length hdata
  simp only [handshake, extensionBlock, serverNameList, List.length_cons, List.length_append,
    length_beBytes, length_encodeExtension] at hbodyLen hmessageLen hblockLen hdataLen
  have hbytes : l.bytes = 0x16 :: ((l.recordVersion ++ beBytes 2 body.length) ++ (0x01 ::
      (beBytes 3 message.length ++ l.hello.encode ++ (beBytes 2 block.length ++
        (Extension.encodeAll l.before ++ (encodeExtension 0 l.data ++
          (l.blockRest ++ l.slack ++ l.more ++ l.after))))))) := by
    rw [SniLayout.bytes, hblock, helloBuffer, hmessage, tlsRecord, hbody]
    simp only [← hbody, ← hmessage, ← hblock, handshake, extensionBlock, List.cons_append,
      List.append_assoc]
  refine ⟨⟨l.recordVersion ++ beBytes 2 body.length, beBytes 3 message.length, l.hello,
    block.length, l.before, beBytes 2 (serverNameList name l.entries).length, name,
    l.entries ++ l.dataRest, l.blockRest ++ l.slack ++ l.more ++ l.after, ?_, length_beBytes _ _,
    by omega, l.before_kind, length_beBytes _ _, by rw [← hdata]; omega, by omega, hne, hgraphic⟩, ?_, rfl, ?_⟩
  · rw [List.length_append, l.recordVersion_len, length_beBytes]
  · rw [hbytes]
    simp only [SniWalk.bytes, SniWalk.data, hdata]
  · have hrecord : beNat ((l.recordVersion ++ beBytes 2 body.length).drop 2) = body.length := by
      rw [List.drop_left' l.recordVersion_len, beNat_beBytes (by simpa using hfits)]
    have hmsgLen : beNat (beBytes 3 message.length) = message.length :=
      beNat_beBytes (by norm_num; omega)
    have hlistLen : beNat (beBytes 2 (serverNameList name l.entries).length) =
        (serverNameList name l.entries).length :=
      beNat_beBytes (by simp only [serverNameList, List.length_cons, List.length_append,
        length_beBytes]; norm_num; omega)
    have hlist : (serverNameList name l.entries).length = 3 + name.length + l.entries.length := by
      simp only [serverNameList, List.length_cons, List.length_append, length_beBytes]
      omega
    refine ⟨?_, ?_, ?_, ?_, ?_, ?_⟩ <;>
      simp only [SniWalk.bytes, SniWalk.data, ← hdata, hrecord, hmsgLen, hlistLen, List.length_cons,
        List.length_append, length_beBytes, length_encodeExtension, l.recordVersion_len] <;> omega

/-- **A name that is returned lies in nested lengths**, of a buffer of any content, exactly if the
lengths that the parser does not compare agree where it walks to a name. -/
theorem parseTlsSni_nested (rec : List UInt8) :
    (∀ name, parseTlsSni rec = done name → Nested rec name) ↔
      ((∃ w : SniWalk, w.bytes = rec) → ∃ w : SniWalk, w.bytes = rec ∧ w.Agrees) := by
  constructor
  · rintro h ⟨w, rfl⟩
    obtain ⟨w', hbytes, -, hagrees⟩ :=
      (h w.name w.parse).exists_agrees w.name_ne w.name_graphic
    exact ⟨w', hbytes, hagrees⟩
  · intro h name hname
    obtain ⟨w, hw, -⟩ := exists_walk hname
    obtain ⟨w', rfl, hagrees⟩ := h ⟨w, hw⟩
    obtain rfl : w'.name = name := done.inj (w'.parse.symm.trans hname)
    exact hagrees.nested

/-- A ClientHello with no session id, one cipher suite and one compression method. -/
def sampleHello : ClientHello where
  version := [3, 3]
  random := List.replicate 32 0
  sessionId := []
  cipherSuites := [0x13, 0x01]
  compressionMethods := [0]
  version_len := rfl
  random_len := rfl
  sessionId_lt := by decide
  cipherSuites_lt := by decide
  compressionMethods_lt := by decide

/-- The extension that names the host `x`. -/
def nameX : Extension := ⟨0, beBytes 2 4 ++ serverNameList [0x78] [], by decide⟩

/-- A walk to `x` around given fields; its block declares 150 bytes. -/
def SniWalk.toX (hello : ClientHello) (header msgLen : List UInt8) (hheader : header.length = 4)
    (hmsg : msgLen.length = 3) : SniWalk where
  header
  msgLen
  hello
  total := 150
  before := []
  listLen := beBytes 2 4
  name := [0x78]
  entries := []
  tail := []
  header_len := hheader
  msgLen_len := hmsg
  total_lt := by decide
  before_kind := by simp
  listLen_len := rfl
  data_lt := by decide
  starts := by decide
  name_ne := by decide
  name_graphic := by decide

/-- A record that declares 200 bytes and a message that declares 196, of which the segment holds
the bytes up to the end of the name. -/
def cutShort : List UInt8 :=
  0x16 :: ([3, 1, 0, 200] ++ (0x01 :: ([0, 0, 196] ++ sampleHello.encode ++
    (beBytes 2 150 ++ nameX.encode))))

/-- A ClientHello that is cut short is read, though its record does not end in the buffer. -/
theorem parseTlsSni_cut_short : parseTlsSni cutShort = done [0x78] ∧ ¬Nested cutShort [0x78] := by
  constructor
  · exact (SniWalk.toX sampleHello [3, 1, 0, 200] [0, 0, 196] rfl rfl).parse
  · intro h
    obtain ⟨w, hbytes, -, hagrees⟩ := h.exists_agrees (by decide) (by decide)
    have hheader : w.header = (w.bytes.drop 1).take 4 := by
      rw [SniWalk.bytes, List.drop_succ_cons, List.drop_zero, List.take_left' w.header_len]
    have hrecord := hagrees.record
    rw [hheader, hbytes] at hrecord
    revert hrecord
    decide

/-! ### Well-formed ClientHellos -/

/-- A ClientHello in a record of its own, with a block of extensions or without one. -/
structure ClientHelloRecord where
  recordVersion : List UInt8
  hello : ClientHello
  extensions : Option (List Extension)
  recordVersion_len : recordVersion.length = 2
  fits : (handshake (hello.encode ++ extensions.elim []
    fun es => extensionBlock (Extension.encodeAll es))).length < 65536

namespace ClientHelloRecord

def bytes (r : ClientHelloRecord) : List UInt8 :=
  tlsRecord r.recordVersion (handshake (r.hello.encode ++ r.extensions.elim []
    fun es => extensionBlock (Extension.encodeAll es)))

/-- The first server_name extension begins with a host_name entry. -/
def Names (r : ClientHelloRecord) (name : List UInt8) : Prop :=
  ∃ es e entries, r.extensions = some es ∧ es.find? (fun e => e.kind == 0) = some e ∧
    e.data = beBytes 2 (serverNameList name entries).length ++ serverNameList name entries

/-- The parser reads the extensions of the block, and nothing where the record ends without one. -/
theorem parse_bytes (r : ClientHelloRecord) {after : List UInt8}
    (hblock : r.extensions.isSome = true ∨ after = []) :
    parseTlsSni (r.bytes ++ after) = r.extensions.elim refused fun es =>
      (es.find? fun e => e.kind == 0).elim refused fun e => serverName e.data := by
  have hfits := r.fits
  cases hes : r.extensions with
  | some es =>
    rw [hes] at hfits
    have htotal : (Extension.encodeAll es).length < 65536 := by
      simp only [Option.elim_some, handshake, extensionBlock, List.length_cons, List.length_append,
        length_beBytes] at hfits
      omega
    obtain ⟨header, msgLen, hheader, hmsgLen, hbytes⟩ := helloBuffer_eq r.recordVersion_len r.hello
      (Extension.encodeAll es) [] [] after
    obtain ⟨p, hp, hat, hparse⟩ := parseTlsSni_block r.hello hheader hmsgLen htotal rfl hbytes
    generalize 0x01 :: (msgLen ++ r.hello.encode ++ _) = body at hp hat hparse
    have hlen := congrArg List.length hat
    rw [List.length_drop, List.length_append] at hlen
    have hbuffer : r.bytes ++ after =
        helloBuffer r.recordVersion r.hello (Extension.encodeAll es) [] [] after := by
      simp [bytes, hes, helloBuffer]
    -- the block is at its end
    have hstop : sniLoop body (min (p + (Extension.encodeAll es).length) body.length)
        (p + (Extension.encodeAll es).length) = refused := by
      rw [sniLoop, if_neg (by omega)]
    rw [hbuffer, hparse, sniLoop_extensions hat (by omega), hstop, Option.elim_some]
  | none =>
    obtain rfl : after = [] := by
      rcases hblock with h | h
      · rw [hes] at h
        cases h
      · exact h
    have hbytes : r.bytes ++ [] = 0x16 :: ((r.recordVersion ++
        beBytes 2 (handshake (r.hello.encode ++ [])).length) ++
        (0x01 :: (beBytes 3 (r.hello.encode ++ []).length ++ r.hello.encode ++ []))) := by
      simp [bytes, hes, tlsRecord, handshake]
    obtain ⟨hat, hparse⟩ := parseTlsSni_fields r.hello
      (by rw [List.length_append, r.recordVersion_len, length_beBytes]) (length_beBytes _ _) rfl
      hbytes
    rw [hparse, getU16, get_end hat]
    rfl

/-- The parser finds the name of the ClientHello, or that it has none, when `after` follows it. -/
def Read (r : ClientHelloRecord) (after : List UInt8) : Prop :=
  (∀ name, r.Names name → name ≠ [] → name.all isAsciiGraphic = true →
      parseTlsSni (r.bytes ++ after) = done name) ∧
    ((∀ es ∈ r.extensions, ∀ e ∈ es, e.kind ≠ 0) → parseTlsSni (r.bytes ++ after) = refused)

theorem read_of_block (r : ClientHelloRecord) {after : List UInt8}
    (hblock : r.extensions.isSome = true ∨ after = []) : r.Read after := by
  rw [Read, r.parse_bytes hblock]
  constructor
  · rintro name ⟨es, e, entries, hes, hfind, hdata⟩ hne hgraphic
    rw [hes, Option.elim_some, hfind, Option.elim_some, hdata]
    have hlt := e.data_lt
    rw [hdata] at hlt
    exact serverName_list (length_beBytes _ _) hlt hne hgraphic
  · intro hnone
    cases hes : r.extensions with
    | none => rfl
    | some es =>
      have hfind : es.find? (fun e => e.kind == 0) = none := by
        rw [List.find?_eq_none]
        intro e he
        simpa using hnone es hes e he
      rw [Option.elim_some, hfind, Option.elim_none]

/-- Bytes that name the host `x` when they are taken for a block. -/
def strayBlock : List UInt8 := beBytes 2 150 ++ nameX.encode

/-- Where there is no block, the name in the bytes that follow is read. -/
theorem parse_stray (r : ClientHelloRecord) (hnone : r.extensions = none) :
    parseTlsSni (r.bytes ++ strayBlock) = done [0x78] := by
  have hheader : (r.recordVersion ++
      beBytes 2 (handshake (r.hello.encode ++ [])).length).length = 4 := by
    rw [List.length_append, r.recordVersion_len, length_beBytes]
  have hbytes : r.bytes ++ strayBlock = (SniWalk.toX r.hello _
      (beBytes 3 (r.hello.encode ++ []).length) hheader (length_beBytes _ _)).bytes := by
    simp only [bytes, hnone, Option.elim_none, tlsRecord, handshake, strayBlock, Extension.encode,
      SniWalk.bytes, SniWalk.toX, List.append_nil, List.cons_append, List.append_assoc]
    rfl
  rw [hbytes, SniWalk.parse]
  rfl

end ClientHelloRecord

/-- **The name of a well-formed ClientHello is found**, with nothing after its record in any case,
and whatever follows its record if and only if it has a block of extensions. -/
theorem parseTlsSni_complete (r : ClientHelloRecord) :
    r.Read [] ∧ ((∀ after, r.Read after) ↔ r.extensions.isSome = true) := by
  refine ⟨r.read_of_block (.inr rfl), fun h => ?_, fun h after => r.read_of_block (.inl h)⟩
  by_contra hsome
  have hnone : r.extensions = none := by simpa using hsome
  have hstray := (h ClientHelloRecord.strayBlock).2 (by simp [hnone])
  rw [r.parse_stray hnone] at hstray
  cases hstray

theorem parseTlsSni_complete_sample :
    let r : ClientHelloRecord :=
      ⟨[3, 1], sampleHello, some [⟨10, [0, 0], by decide⟩, nameX], rfl, by decide⟩
    parseTlsSni (r.bytes ++ [0x17]) = done [0x78] := by
  intro r
  refine (((parseTlsSni_complete r).2.mpr rfl) [0x17]).1 [0x78] ?_ (by decide) (by decide)
  exact ⟨_, nameX, [], rfl, rfl, rfl⟩

/-- A ClientHello without extensions, in a record of its own. -/
def bareHello : ClientHelloRecord := ⟨[3, 1], sampleHello, none, rfl, by decide⟩

/-- What follows the record of a ClientHello without extensions is taken for its block. -/
theorem parseTlsSni_past_record :
    bareHello.extensions = none ∧
      parseTlsSni (bareHello.bytes ++ (beBytes 2 150 ++ nameX.encode)) = done [0x78] :=
  ⟨rfl, bareHello.parse_stray rfl⟩
