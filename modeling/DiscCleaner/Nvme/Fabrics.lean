import DiscCleaner.Lib.Bytes
import DiscCleaner.Nvme.Purge
import Mathlib.Data.List.Infix
import Mathlib.Data.List.Nodup

/-!
# DiscCleaner — the fabric transport (`fabrics.rs`)

A remote controller is connected over generic netlink and then looked for in sysfs. A reply is
taken for a refusal by its type, and a controller for the target by its address and subsystem.

* **`buildGenlMessage_header`** — the header the module writes: the length in four bytes, then the
  type.
* **`nakRefused_iff`** — the type is read from the length, so a refusal passes as an answer.
* **`findsOwn_iff`** — a controller is the target's unless one listed before it merely contains
  its address.
-/

namespace DiscCleaner

open ByteLib

namespace Nvme

/-! ## Netlink messages -/

def le16 (n : Nat) : Bytes := [UInt8.ofNat n, UInt8.ofNat (n / 256)]

def NLM_F_REQUEST : Nat := 0x01
def NLM_F_ACK : Nat := 0x04
def NLMSG_ERROR : Nat := 0x02

/-- Attribute payloads. -/
inductive Attr where
  | str (s : String)
  | u32 (v : Nat)
  | flag

def Attr.encode : Attr → Bytes
  | .str s => utf8 s ++ [0]
  | .u32 v => le32 v
  | .flag => []

/-- Length, type and payload, padded to four bytes. -/
def pushAttr (msg : Bytes) (attr : Nat × Attr) : Bytes :=
  let payload := attr.2.encode
  let msg := msg ++ le16 (4 + payload.length) ++ le16 attr.1 ++ payload
  msg ++ List.replicate ((4 - msg.length % 4) % 4) 0

def buildGenlMessage (familyId cmd version : Nat) (attrs : List (Nat × Attr)) : Bytes :=
  let nlmsghdr := le32 0 ++ le16 familyId ++ le16 0 ++ le32 0 ++ le32 0
  let genlmsghdr := [UInt8.ofNat cmd, UInt8.ofNat version] ++ le16 0
  let msg := attrs.foldl pushAttr (nlmsghdr ++ genlmsghdr)
  le32 msg.length ++ msg.drop 4

/-- A message in the layout of `build_genl_message`: the length, the type, flags, sequence number
and port, then the body. -/
def netlinkMessage (ty flags seq pid : Nat) (body : Bytes) : Bytes :=
  le32 (16 + body.length) ++ le16 ty ++ le16 flags ++ le32 seq ++ le32 pid ++ body

theorem pushAttr_extends (msg : Bytes) (attr : Nat × Attr) : msg <+: pushAttr msg attr := by
  simp only [pushAttr, List.append_assoc]
  exact List.prefix_append _ _

theorem foldl_pushAttr_extends (attrs : List (Nat × Attr)) (msg : Bytes) :
    msg <+: attrs.foldl pushAttr msg := by
  induction attrs generalizing msg with
  | nil => exact List.prefix_refl msg
  | cons attr attrs ih => exact (pushAttr_extends msg attr).trans (ih _)

/-- **The header the module writes**. -/
theorem buildGenlMessage_header (familyId cmd version : Nat) (attrs : List (Nat × Attr)) :
    ∃ body, buildGenlMessage familyId cmd version attrs = netlinkMessage familyId 0 0 0 body := by
  obtain ⟨rest, hrest⟩ := foldl_pushAttr_extends attrs
    (le32 0 ++ le16 familyId ++ le16 0 ++ le32 0 ++ le32 0 ++
      ([UInt8.ofNat cmd, UInt8.ofNat version] ++ le16 0))
  refine ⟨[UInt8.ofNat cmd, UInt8.ofNat version] ++ le16 0 ++ rest, ?_⟩
  rw [buildGenlMessage]
  simp only [← hrest]
  rw [netlinkMessage]
  have hlength : (le32 0 ++ le16 familyId ++ le16 0 ++ le32 0 ++ le32 0 ++
      ([UInt8.ofNat cmd, UInt8.ofNat version] ++ le16 0) ++ rest).length
      = 16 + ([UInt8.ofNat cmd, UInt8.ofNat version] ++ le16 0 ++ rest).length := by
    simp [le16]
    omega
  rw [hlength]
  rfl

/-! ## The socket -/

inductive FabricError where
  | netlink (detail : String)
  | connectTimeout (ms : Nat)
  | nak (detail : String)
  | sysfs (detail : String)
  deriving DecidableEq

def EINTR : Int := 4
def ENOENT : Int := 2
def EBUSY : Int := 16
def ECONNREFUSED : Int := 111

def errnoLabel (err : Int) : String :=
  if err = ENOENT then "ENOENT (no such controller/attribute)"
  else if err = EINVAL then "EINVAL (bad attribute combination)"
  else if err = ECONNREFUSED then "ECONNREFUSED (fabric unreachable)"
  else if err = ETIMEDOUT then "ETIMEDOUT"
  else if err = EBUSY then "EBUSY (already connected)"
  else "unmapped errno"

/-- `i32::from_le_bytes` at an offset. -/
def i32At (raw : Bytes) (i : Nat) : Int := (ofLe ((raw.drop i).take 4) : Int).bmod (2 ^ 32)

/-- What a turn of the wait meets. -/
inductive SocketEvent where
  | deadline
  | pollError (errno : Int)
  | spurious
  | received (message : Bytes)

/-- A reply, with its type taken from the first two bytes. -/
def onReply (reply : Bytes) : Except FabricError Bytes :=
  if 16 ≤ reply.length then
    let ty := le16At reply 0
    if ty = NLMSG_ERROR ∧ 20 ≤ reply.length then
      let err := i32At reply 16
      if err = 0 then .ok reply
      else .error (.nak ("netlink error " ++ toString err ++ " (" ++ errnoLabel err ++ ")"))
    else .ok reply
  else .ok reply

/-- The wait for a reply; it goes on past an interrupt and a spurious wakeup. The buffer takes
8192 bytes of a message. -/
def awaitReply (timeoutMs : Nat) : List SocketEvent → Option (Except FabricError Bytes)
  | [] => none
  | .deadline :: _ => some (.error (.connectTimeout timeoutMs))
  | .pollError errno :: rest =>
    if errno = EINTR then awaitReply timeoutMs rest
    else some (.error (.netlink ("poll(netlink): errno " ++ toString errno)))
  | .spurious :: rest => awaitReply timeoutMs rest
  | .received message :: _ => some (onReply (message.take 8192))

/-- What is sent: the header patched for the request. -/
def patched (seq : Nat) (msg : Bytes) (msgType : Nat) : Bytes :=
  msg.take 4 ++ le16 msgType ++ le16 (NLM_F_REQUEST ||| NLM_F_ACK) ++ le32 seq ++ le32 0 ++ msg.drop 16

/-- One request and its reply: what was sent, and how it ended unless it still waits. -/
def transact (seq : Nat) (msg : Bytes) (msgType timeoutMs : Nat) (sendError : Option Int)
    (events : List SocketEvent) : Bytes × Option (Except FabricError Bytes) :=
  let out := patched ((seq + 1) % 2 ^ 32) msg msgType
  match sendError with
  | some errno => (out, some (.error (.netlink ("sendto(netlink): errno " ++ toString errno))))
  | none => (out, awaitReply timeoutMs events)

/-! ## Refusals -/

/-- A turn after which the wait goes on. -/
def SocketEvent.Waits (e : SocketEvent) : Prop := e = .spurious ∨ e = .pollError EINTR

/-- Whenever the message answers a request, the request fails. -/
def NakRefused (message : Bytes) : Prop :=
  ∀ seq msg msgType timeoutMs waits, (∀ w ∈ waits, SocketEvent.Waits w) →
    ∃ e, (transact seq msg msgType timeoutMs none (waits ++ [.received message])).2
      = some (.error e)

theorem awaitReply_waits (timeoutMs : Nat) {waits : List SocketEvent}
    (h : ∀ w ∈ waits, w.Waits) (rest : List SocketEvent) :
    awaitReply timeoutMs (waits ++ rest) = awaitReply timeoutMs rest := by
  induction waits with
  | nil => rfl
  | cons w waits ih =>
    obtain ⟨hw, hwaits⟩ := List.forall_mem_cons.mp h
    rcases hw with rfl | rfl
    · exact ih hwaits
    · rw [List.cons_append, awaitReply, if_pos rfl]
      exact ih hwaits

theorem nakRefused_iff_onReply (message : Bytes) :
    NakRefused message ↔ ∃ e, onReply (message.take 8192) = .error e := by
  constructor
  · intro h
    obtain ⟨e, he⟩ := h 0 [] 0 0 [] (by simp)
    exact ⟨e, Option.some.inj he⟩
  · rintro ⟨e, he⟩ seq msg msgType timeoutMs waits hwaits
    refine ⟨e, ?_⟩
    rw [transact]
    simp only
    rw [awaitReply_waits timeoutMs hwaits, awaitReply, he]

theorem bmod_ne_zero {n : Nat} (h : n % 2 ^ 32 ≠ 0) : ((n % 2 ^ 32 : Nat) : Int).bmod (2 ^ 32) ≠ 0 := by
  intro hzero
  have hdvd := Int.dvd_of_bmod_eq_zero hzero
  norm_num at hdvd h
  omega

/-- **The type is read from the length**: an error message is refused exactly when the low half of
its own length is the number of its type. -/
theorem nakRefused_iff (flags seq pid : Nat) {err : Nat} (herr : err % 2 ^ 32 ≠ 0) (rest : Bytes) :
    NakRefused (netlinkMessage NLMSG_ERROR flags seq pid (le32 err ++ rest))
      ↔ (20 + rest.length) % 2 ^ 16 = 2 := by
  rw [nakRefused_iff_onReply]
  set message := netlinkMessage NLMSG_ERROR flags seq pid (le32 err ++ rest) with hmessage
  have hlength : 20 ≤ (message.take 8192).length := by
    rw [List.length_take, hmessage, netlinkMessage]
    simp [le16]
    omega
  have htype : le16At (message.take 8192) 0 = (20 + rest.length) % 2 ^ 16 := by
    have hhead : le16At (message.take 8192) 0
        = (UInt8.ofNat (16 + (le32 err ++ rest).length)).toNat
          + 256 * (UInt8.ofNat ((16 + (le32 err ++ rest).length) / 256)).toNat := rfl
    rw [hhead, List.length_append, le32_length, UInt8.toNat_ofNat', UInt8.toNat_ofNat']
    omega
  have hcode : i32At (message.take 8192) 16 ≠ 0 := by
    have hdrop : message.drop 16 = le32 err ++ rest := rfl
    have hbytes : ((message.take 8192).drop 16).take 4 = le32 err := by
      rw [List.drop_take, hdrop, List.take_take, show min 4 (8192 - 16) = 4 from rfl,
        List.take_left' (le32_length err)]
    unfold i32At
    rw [hbytes, ofLe_le32_mod]
    exact bmod_ne_zero herr
  rw [onReply]
  simp only [if_pos (show 16 ≤ (message.take 8192).length by omega), htype, NLMSG_ERROR,
    and_iff_left hlength, if_neg hcode]
  split_ifs with h
  · exact iff_of_true ⟨_, rfl⟩ h
  · exact iff_of_false (fun ⟨e, he⟩ => by cases he) h

/-! ## Fabric targets -/

inductive FabricTransport where
  | tcp | rdma | fc | loop
  deriving DecidableEq

def FabricTransport.kernelName : FabricTransport → String
  | .tcp => "tcp"
  | .rdma => "rdma"
  | .fc => "fc"
  | .loop => "loop"

structure FabricTarget where
  transport : FabricTransport
  traddr : String
  trsvcid : String
  nqn : String
  hostTraddr : Option String
  katoSec : Option Nat
  discovery : Bool

/-- The attributes of a connect or disconnect. -/
def FabricTarget.connectAttrs (t : FabricTarget) : List (Nat × Attr) :=
  [(1, .str t.transport.kernelName), (2, .str t.traddr)]
    ++ (if t.trsvcid = "" then [] else [(3, .str t.trsvcid)])
    ++ (t.hostTraddr.toList.map fun host => (4, .str host))
    ++ [(5, .str t.nqn)]
    ++ (if t.discovery then [(6, .flag)] else [])
    ++ (t.katoSec.toList.map fun kato => (7, .u32 kato))

/-! ## The controllers of `/sys/class/nvme` -/

/-- An entry of the directory and its two attribute files, where they could be read. -/
structure CtrlEntry where
  name : String
  address : Option String
  subsysnqn : Option String

def readAttr (content : Option String) : String := trim (content.getD "")

/-- `&name[n..]` on bytes; it stops the program past the end and inside a character. -/
def sliceFrom : Nat → List Char → Option (List Char)
  | 0, s => some s
  | _ + 1, [] => none
  | n + 1, c :: s => if c.utf8Size ≤ n + 1 then sliceFrom (n + 1 - c.utf8Size) s else none

/-- Whether the loop passes over an entry as a namespace. -/
def skipped (name : String) : Option Bool :=
  let s := name.toList
  let nvme := "nvme".toList
  if ¬nvme <+: s ∨ ('n' ∈ s ∧ (nvme <+: s ∧ ¬nvme <:+: s.tail) ∧ 4 < (utf8 name).length) then
    (sliceFrom 4 s).map fun rest => 'n' ∈ rest
  else some false

/-- The address contains the target's, or is empty for a loop target; the subsystem is equal. -/
def Accepts (target : FabricTarget) (e : CtrlEntry) : Prop :=
  (target.traddr.toList <:+: (readAttr e.address).toList ∨
      (target.transport = .loop ∧ readAttr e.address = "")) ∧
    readAttr e.subsysnqn = target.nqn

instance (target : FabricTarget) (e : CtrlEntry) : Decidable (Accepts target e) :=
  inferInstanceAs (Decidable (_ ∧ _))

/-- The first entry that is accepted. -/
def firstAccepted (target : FabricTarget) : List CtrlEntry → Option (Option CtrlEntry)
  | [] => some none
  | e :: rest =>
    match skipped e.name with
    | none => none
    | some true => firstAccepted target rest
    | some false => if Accepts target e then some (some e) else firstAccepted target rest

/-- The name of the controller found, or an error where the directory cannot be read. A name too
short to slice stops the program. -/
def scanSysfsForController (dir : Except String (List CtrlEntry)) (target : FabricTarget) :
    Option (Except FabricError (Option String)) :=
  match dir with
  | .error e => some (.error (.sysfs ("/sys/class/nvme: " ++ e)))
  | .ok entries => (firstAccepted target entries).map fun found => .ok (found.map (·.name))

/-! ## The controller of the target -/

/-- The value of a key in `key=value,key=value`, empty where the key is absent. -/
def fieldOf (key : String) (address : String) : List Char :=
  match (address.toList.splitOn ',').find? fun part => (key ++ "=").toList.isPrefixOf part with
  | some part => part.drop (key ++ "=").toList.length
  | none => []

/-- The entry is the target's: address, service and subsystem are equal. -/
structure Own (target : FabricTarget) (e : CtrlEntry) : Prop where
  traddr : fieldOf "traddr" (readAttr e.address) = target.traddr.toList
  trsvcid : fieldOf "trsvcid" (readAttr e.address) = target.trsvcid.toList
  nqn : readAttr e.subsysnqn = target.nqn

/-- A directory names each of its entries once. -/
structure SysfsDir where
  entries : List CtrlEntry
  nodup : (entries.map (·.name)).Nodup

/-- What the scan returns is the target's. -/
def FindsOwn (dir : SysfsDir) (target : FabricTarget) : Prop :=
  ∀ name, scanSysfsForController (.ok dir.entries) target = some (.ok (some name)) →
    ∃ e ∈ dir.entries, e.name = name ∧ Own target e

/-- An entry that is accepted without being the target's stands behind one that is the target's,
or behind one that stops the scan. -/
def NearMatchesShadowed (entries : List CtrlEntry) (target : FabricTarget) : Prop :=
  ∀ before e after, entries = before ++ e :: after →
    skipped e.name = some false → Accepts target e → ¬Own target e →
    ∃ e' ∈ before, skipped e'.name = none ∨ (skipped e'.name = some false ∧ Own target e')

/-! ## What the scan finds -/

theorem infix_intercalate {sep part : List Char} {parts : List (List Char)} (h : part ∈ parts) :
    part <:+: sep.intercalate parts := by
  induction parts with
  | nil => cases h
  | cons p parts ih =>
    cases parts with
    | nil =>
      rw [List.mem_singleton.mp h, List.intercalate_singleton]
    | cons q parts =>
      rw [List.intercalate_cons_cons]
      rcases List.mem_cons.mp h with rfl | h
      · rw [List.append_assoc]
        exact (List.prefix_append _ _).isInfix
      · exact (ih h).trans (List.suffix_append _ _).isInfix

/-- A value stands in the address. -/
theorem fieldOf_infix (key address : String) : fieldOf key address <:+: address.toList := by
  unfold fieldOf
  split
  · next part hpart =>
    have hinfix : part <:+: [','].intercalate (address.toList.splitOn ',') :=
      infix_intercalate (List.mem_of_find?_eq_some hpart)
    rw [List.intercalate_splitOn] at hinfix
    exact (List.drop_suffix _ _).isInfix.trans hinfix
  · exact List.nil_infix

/-- The target's own controller is accepted. -/
theorem Own.accepts {target : FabricTarget} {e : CtrlEntry} (h : Own target e) :
    Accepts target e := by
  have htraddr : target.traddr.toList <:+: (readAttr e.address).toList := by
    rw [← h.traddr]
    exact fieldOf_infix "traddr" (readAttr e.address)
  exact ⟨.inl htraddr, h.nqn⟩

theorem firstAccepted_mem {target : FabricTarget} {entries : List CtrlEntry} {e : CtrlEntry}
    (h : firstAccepted target entries = some (some e)) : e ∈ entries := by
  induction entries with
  | nil => cases h
  | cons x rest ih =>
    rw [firstAccepted] at h
    split at h
    · cases h
    · exact List.mem_cons_of_mem x (ih h)
    · split_ifs at h
      · cases h
        exact List.mem_cons_self
      · exact List.mem_cons_of_mem x (ih h)

/-- An entry at the head that is no obstacle leaves the condition to the rest. -/
theorem nearMatchesShadowed_cons {target : FabricTarget} {e : CtrlEntry} {rest : List CtrlEntry}
    (hhead : skipped e.name = some false → ¬Accepts target e) (hgoes : skipped e.name ≠ none) :
    NearMatchesShadowed (e :: rest) target ↔ NearMatchesShadowed rest target := by
  constructor
  · intro h before x after hsplit hconsidered haccepts hnot
    obtain ⟨x', hx', hcase⟩ := h (e :: before) x after (by rw [hsplit]; rfl) hconsidered haccepts hnot
    rcases List.mem_cons.mp hx' with rfl | hx'
    · rcases hcase with hnone | ⟨hfalse, hown⟩
      · exact absurd hnone hgoes
      · exact absurd hown.accepts (hhead hfalse)
    · exact ⟨x', hx', hcase⟩
  · intro h before x after hsplit hconsidered haccepts hnot
    cases before with
    | nil =>
      obtain ⟨rfl, -⟩ := List.cons.inj hsplit
      exact absurd haccepts (hhead hconsidered)
    | cons y before =>
      obtain ⟨rfl, hrest⟩ := List.cons.inj hsplit
      obtain ⟨x', hx', hcase⟩ := h before x after hrest hconsidered haccepts hnot
      exact ⟨x', List.mem_cons_of_mem e hx', hcase⟩

/-- An entry at the head that ends the search shadows all behind it. -/
theorem nearMatchesShadowed_of_head {target : FabricTarget} {e : CtrlEntry} {rest : List CtrlEntry}
    (hhead : skipped e.name = none ∨ (skipped e.name = some false ∧ Own target e)) :
    NearMatchesShadowed (e :: rest) target := by
  intro before x after hsplit hconsidered _ hnot
  cases before with
  | nil =>
    obtain ⟨rfl, -⟩ := List.cons.inj hsplit
    rcases hhead with hnone | ⟨-, hown⟩
    · rw [hnone] at hconsidered
      cases hconsidered
    · exact absurd hown hnot
  | cons y before =>
    obtain ⟨rfl, -⟩ := List.cons.inj hsplit
    exact ⟨e, List.mem_cons_self, hhead⟩

/-- **Search rule**, by induction on the directory. -/
theorem firstAccepted_own_iff (target : FabricTarget) (entries : List CtrlEntry) :
    (∀ e, firstAccepted target entries = some (some e) → Own target e)
      ↔ NearMatchesShadowed entries target := by
  induction entries with
  | nil =>
    refine iff_of_true (fun e h => by cases h) fun before x after hsplit => ?_
    exact absurd hsplit.symm (by simp)
  | cons e rest ih =>
    cases hskip : skipped e.name with
    | none =>
      refine iff_of_true (fun x h => ?_) (nearMatchesShadowed_of_head (.inl hskip))
      rw [firstAccepted, hskip] at h
      cases h
    | some pass =>
      cases pass with
      | true =>
        rw [nearMatchesShadowed_cons (by simp [hskip]) (by simp [hskip]), ← ih, firstAccepted, hskip]
      | false =>
        by_cases haccepts : Accepts target e
        · have hfirst : firstAccepted target (e :: rest) = some (some e) := by
            rw [firstAccepted, hskip]
            exact if_pos haccepts
          constructor
          · exact fun h => nearMatchesShadowed_of_head (.inr ⟨hskip, h e hfirst⟩)
          · intro h x hx
            obtain rfl := Option.some.inj (Option.some.inj (hfirst.symm.trans hx))
            by_contra hnot
            obtain ⟨x', hx', -⟩ := h [] e rest rfl hskip haccepts hnot
            cases hx'
        · rw [nearMatchesShadowed_cons (fun _ => haccepts) (by simp [hskip]), ← ih, firstAccepted,
            hskip]
          simp only [if_neg haccepts]

theorem eq_of_name_eq {dir : SysfsDir} {e e' : CtrlEntry} (he : e ∈ dir.entries)
    (he' : e' ∈ dir.entries) (h : e.name = e'.name) : e = e' :=
  List.inj_on_of_nodup_map dir.nodup he he' h

/-- **The scan returns the target's controller exactly** where no entry that merely contains its
address comes first. -/
theorem findsOwn_iff (dir : SysfsDir) (target : FabricTarget) :
    FindsOwn dir target ↔ NearMatchesShadowed dir.entries target := by
  rw [← firstAccepted_own_iff]
  constructor
  · intro h e hfirst
    obtain ⟨e', he', hname, hown⟩ := h e.name (by rw [scanSysfsForController]; simp [hfirst])
    rwa [eq_of_name_eq he' (firstAccepted_mem hfirst) hname] at hown
  · intro h name hscan
    simp only [scanSysfsForController, Option.map_eq_some_iff, Except.ok.injEq] at hscan
    obtain ⟨found, hfirst, hname⟩ := hscan
    obtain ⟨e, rfl, rfl⟩ := hname
    exact ⟨e, firstAccepted_mem hfirst, rfl, h e hfirst⟩

/-! ## The two together -/

/-- **When fabric transactions recognise what is theirs**: the scan, where no near match comes
before the target's own controller; a refusal, where the low half of its length is 2. -/
theorem fabric_recognises_iff (dir : SysfsDir) (target : FabricTarget) (flags seq pid : Nat)
    {err : Nat} (herr : err % 2 ^ 32 ≠ 0) (rest : Bytes) :
    (FindsOwn dir target ↔ NearMatchesShadowed dir.entries target) ∧
      (NakRefused (netlinkMessage NLMSG_ERROR flags seq pid (le32 err ++ rest))
        ↔ (20 + rest.length) % 2 ^ 16 = 2) :=
  ⟨findsOwn_iff dir target, nakRefused_iff flags seq pid herr rest⟩

/-- A drive at a longer address. -/
def neighbour : CtrlEntry :=
  ⟨"nvme0", some "traddr=10.0.0.50,trsvcid=4420", some "nqn.2014-08.org.example:sub1"⟩

theorem nodup_neighbour : ([neighbour].map (·.name)).Nodup := by simp

def neighbourDir : SysfsDir := ⟨[neighbour], nodup_neighbour⟩

def shortTarget : FabricTarget where
  transport := .tcp
  traddr := "10.0.0.5"
  trsvcid := "4420"
  nqn := "nqn.2014-08.org.example:sub1"
  hostTraddr := none
  katoSec := none
  discovery := false

theorem fabric_recognises_empty :
    1 % 2 ^ 32 ≠ 0 ∧ (FindsOwn ⟨[], List.nodup_nil⟩ shortTarget ↔ NearMatchesShadowed [] shortTarget) :=
  ⟨by decide, (fabric_recognises_iff ⟨[], List.nodup_nil⟩ shortTarget 0 1 0
    (show 1 % 2 ^ 32 ≠ 0 by decide) []).1⟩

/-- The neighbour is returned for the target, and a refusal of 36 bytes passes as an answer. -/
theorem fabric_mistakes :
    scanSysfsForController (.ok neighbourDir.entries) shortTarget = some (.ok (some "nvme0")) ∧
      ¬FindsOwn neighbourDir shortTarget ∧
      ¬NakRefused (netlinkMessage NLMSG_ERROR 0 1 0 (le32 0xFFFFFF91 ++ List.replicate 16 0)) := by
  have hscan : scanSysfsForController (.ok neighbourDir.entries) shortTarget
      = some (.ok (some "nvme0")) := by decide
  refine ⟨hscan, fun h => ?_, fun h => ?_⟩
  · obtain ⟨e, he, -, hown⟩ := h "nvme0" hscan
    obtain rfl := List.mem_singleton.mp he
    exact absurd hown.traddr (by decide)
  · have hlength := (nakRefused_iff 0 1 0 (show 0xFFFFFF91 % 2 ^ 32 ≠ 0 by decide) _).mp h
    exact absurd hlength (by decide)

end Nvme

end DiscCleaner
