import NetworkSystem.Wire

/-! The packets of the distributed file system: `trans.h` and the message half of
`trans.c`. -/

namespace NetworkSystem.Dfc

open Bytes Store

def CMD_LS : UInt8 := 1
def CMD_PUT : UInt8 := 2
def CMD_GET : UInt8 := 3
def CMD_MKDIR : UInt8 := 4

def PACKET_SIZE : Nat := 560
def DATA_SIZE_MAX : Nat := 500

/-- `data_packet_t`: the header takes 34 bytes, `offset` is aligned to 40. -/
def dataLayout : DataLayout where
  packetSize := PACKET_SIZE
  eofAt := 34
  lenAt := 36
  offsetAt := 40
  dataAt := 44
  dataSizeMax := DATA_SIZE_MAX
  header_before := by decide
  eof_before := by decide
  len_before := by decide
  offset_before := by decide
  data_inside := by decide
  data_positive := by decide
  data_counted := by decide

/-- The fields of `client_config_t` that go into a packet. They fit their 16-byte
fields with the final zero. -/
structure Credentials where
  username : Bytes
  password : Bytes
  username_fits : username.length < 16
  password_fits : password.length < 16
  username_clean : 0 ∉ username
  password_clean : 0 ∉ password

def sampleUser : Credentials where
  username := [117]
  password := [112]
  username_fits := by decide
  password_fits := by decide
  username_clean := by decide
  password_clean := by decide

/-- The fields of `msg_packet_t` that are read. A string ends at its first zero,
which is looked for past the end of the field. -/
def msgUsername (pkt : Bytes) : Bytes := cstr (pkt.drop 2)
def msgPassword (pkt : Bytes) : Bytes := cstr (pkt.drop 18)
def msgErrno (pkt : Bytes) : UInt8 := pkt.getD 34 0
def msgType (pkt : Bytes) : UInt8 := pkt.getD 35 0
def msgText (pkt : Bytes) : Bytes := cstr (pkt.drop 36)

/-- `strcpy(buffer + pos, text)` -/
def strcpyAt (buffer : Bytes) (pos : Nat) (text : Bytes) : Bytes :=
  store 0 buffer pos (text ++ [0])

/-- `build_msg_packet`, as the `PACKET_SIZE` bytes that are sent. -/
def buildMsgPacket (type errno : UInt8) (msg : Option Bytes) (conf : Option Credentials) : Bytes :=
  let pkt := zeros PACKET_SIZE
  let pkt := store 0 pkt 1 [MSG_TYPE]
  let pkt := match conf with
    | none => pkt
    | some conf => strcpyAt (strcpyAt pkt 2 conf.username) 18 conf.password
  let pkt := store 0 pkt 35 [type]
  let pkt := store 0 pkt 34 [errno]
  let pkt := match msg with
    | none => pkt
    | some msg => store 0 pkt 36 msg
  pkt.take PACKET_SIZE

/-- `sprintf` into `outpkt->msg`, as the `PACKET_SIZE` bytes that are sent. -/
def setMsg (pkt text : Bytes) : Bytes := (strcpyAt pkt 36 text).take PACKET_SIZE

theorem length_le_strcpyAt (buffer : Bytes) (pos : Nat) (text : Bytes) :
    buffer.length ≤ (strcpyAt buffer pos text).length :=
  length_le_store 0 buffer pos (text ++ [0])

theorem length_setMsg (pkt text : Bytes) (size : pkt.length = PACKET_SIZE) :
    (setMsg pkt text).length = PACKET_SIZE := by
  have grown := length_le_strcpyAt pkt 36 text
  rw [setMsg, List.length_take]
  omega

@[simp] theorem msgType_setMsg (pkt text : Bytes) : msgType (setMsg pkt text) = msgType pkt := by
  have inside : 35 < PACKET_SIZE := by decide
  rw [msgType, setMsg, getD_take (0 : UInt8) _ _ _ inside, strcpyAt, getD_store, if_neg (by omega),
    msgType]

/-- A request of a user: the strings and the type that the server reads from it. -/
structure Carries (conf : Credentials) (type : UInt8) (pkt : Bytes) : Prop where
  size : pkt.length = PACKET_SIZE
  user : load pkt 2 (conf.username.length + 1) = conf.username ++ [0]
  secret : load pkt 18 (conf.password.length + 1) = conf.password ++ [0]
  kind : msgType pkt = type

namespace Carries

variable {conf : Credentials} {type : UInt8} {pkt : Bytes} (carries : Carries conf type pkt)

include carries in
theorem username : msgUsername pkt = conf.username :=
  cstr_of_load conf.username_clean carries.user

include carries in
theorem password : msgPassword pkt = conf.password :=
  cstr_of_load conf.password_clean carries.secret

include carries in
theorem setMsg (text : Bytes) : Carries conf type (setMsg pkt text) := by
  have size := carries.size
  have nameFits := conf.username_fits
  have secretFits := conf.password_fits
  have bound : 36 ≤ PACKET_SIZE := by decide
  have grown := length_le_strcpyAt pkt 36 text
  have header : ∀ pos count, pos + count ≤ 36 →
      load (Dfc.setMsg pkt text) pos count = load pkt pos count := by
    intro pos count inside
    rw [Dfc.setMsg, load_take _ _ _ _ (by omega), strcpyAt,
      load_store_of_disjoint 0 _ _ _ _ _ (by omega) (by omega)]
  refine ⟨length_setMsg pkt text size, ?_, ?_, ?_⟩
  · rw [header _ _ (by omega)]
    exact carries.user
  · rw [header _ _ (by omega)]
    exact carries.secret
  · rw [msgType_setMsg]
    exact carries.kind

end Carries

theorem msgText_setMsg (pkt text : Bytes) (clean : 0 ∉ text)
    (fits : 36 + text.length < PACKET_SIZE) : msgText (setMsg pkt text) = text := by
  apply cstr_of_load clean
  have field := load_store (0 : UInt8) pkt 36 (text ++ [0])
  rw [setMsg, load_take _ _ _ _ (by omega), strcpyAt]
  simpa using field

section build

variable (type errno : UInt8) (msg : Option Bytes)

theorem msgErrno_build (conf : Option Credentials) :
    msgErrno (buildMsgPacket type errno msg conf) = errno := by
  have inside : 34 < PACKET_SIZE := by decide
  cases msg <;>
    simp only [msgErrno, buildMsgPacket, getD_take (0 : UInt8) _ _ _ inside, getD_store] <;> simp

theorem msgType_build (conf : Option Credentials) :
    msgType (buildMsgPacket type errno msg conf) = type := by
  have inside : 35 < PACKET_SIZE := by decide
  cases msg <;>
    simp only [msgType, buildMsgPacket, getD_take (0 : UInt8) _ _ _ inside, getD_store] <;> simp

private theorem load_build (signed : Bytes) (size : PACKET_SIZE ≤ signed.length) (pos count : Nat)
    (header : pos + count ≤ 34) :
    let pkt := store 0 (store 0 signed 35 [type]) 34 [errno]
    load ((match msg with
      | none => pkt
      | some msg => store 0 pkt 36 msg).take PACKET_SIZE) pos count = load signed pos count := by
  have typed := length_le_store (0 : UInt8) signed 35 [type]
  have numbered := length_le_store (0 : UInt8) (store 0 signed 35 [type]) 34 [errno]
  have bound : 36 ≤ PACKET_SIZE := by decide
  have core : load (store 0 (store 0 signed 35 [type]) 34 [errno]) pos count =
      load signed pos count := by
    rw [load_store_of_disjoint 0 _ _ _ _ _ (by omega) (by omega),
      load_store_of_disjoint 0 _ _ _ _ _ (by omega) (by omega)]
  cases msg with
  | none =>
      simp only
      rw [load_take _ _ _ _ (by omega), core]
  | some msg =>
      simp only
      rw [load_take _ _ _ _ (by omega), load_store_of_disjoint 0 _ _ _ _ _ (by omega) (by omega),
        core]

private theorem getD_header (conf : Option Credentials) (index : Nat) (behind : 36 ≤ index) :
    (store 0 (store 0 (match conf with
      | none => store 0 (zeros PACKET_SIZE) 1 [MSG_TYPE]
      | some conf => strcpyAt (strcpyAt (store 0 (zeros PACKET_SIZE) 1 [MSG_TYPE]) 2
          conf.username) 18 conf.password) 35 [type]) 34 [errno]).getD index 0 = 0 := by
  have marked : (store 0 (zeros PACKET_SIZE) 1 [MSG_TYPE]).getD index 0 = 0 := by
    rw [getD_store, List.length_singleton, if_neg (by omega), getD_zeros]
  rw [getD_store, List.length_singleton, if_neg (by omega), getD_store, List.length_singleton,
    if_neg (by omega)]
  cases conf with
  | none => exact marked
  | some conf =>
      have nameFits := conf.username_fits
      have secretFits := conf.password_fits
      simp only [strcpyAt]
      rw [getD_store, List.length_append, List.length_singleton, if_neg (by omega), getD_store,
        List.length_append, List.length_singleton, if_neg (by omega), marked]

theorem length_buildMsgPacket (conf : Option Credentials) :
    (buildMsgPacket type errno msg conf).length = PACKET_SIZE := by
  have base : (zeros PACKET_SIZE).length = PACKET_SIZE := by simp [zeros]
  have enough : ∀ pkt : Bytes, PACKET_SIZE ≤ pkt.length →
      ((match msg with
        | none => store 0 (store 0 pkt 35 [type]) 34 [errno]
        | some msg => store 0 (store 0 (store 0 pkt 35 [type]) 34 [errno]) 36 msg).take
          PACKET_SIZE).length = PACKET_SIZE := by
    intro pkt long
    have typed := length_le_store (0 : UInt8) pkt 35 [type]
    have numbered := length_le_store (0 : UInt8) (store 0 pkt 35 [type]) 34 [errno]
    rw [List.length_take]
    cases msg with
    | none => simp only; omega
    | some msg =>
        have texted := length_le_store (0 : UInt8)
          (store 0 (store 0 pkt 35 [type]) 34 [errno]) 36 msg
        simp only
        omega
  have marked := length_le_store (0 : UInt8) (zeros PACKET_SIZE) 1 [MSG_TYPE]
  cases conf with
  | none => exact enough (store 0 (zeros PACKET_SIZE) 1 [MSG_TYPE]) (by omega)
  | some conf =>
      have named := length_le_strcpyAt (store 0 (zeros PACKET_SIZE) 1 [MSG_TYPE]) 2 conf.username
      have closed := length_le_strcpyAt
        (strcpyAt (store 0 (zeros PACKET_SIZE) 1 [MSG_TYPE]) 2 conf.username) 18 conf.password
      exact enough (strcpyAt (strcpyAt (store 0 (zeros PACKET_SIZE) 1 [MSG_TYPE]) 2
        conf.username) 18 conf.password) (by omega)

theorem msgText_build (conf : Option Credentials) {text : Bytes} (carried : msg.getD [] = text)
    (clean : 0 ∉ text) (fits : 36 + text.length < PACKET_SIZE) :
    msgText (buildMsgPacket type errno msg conf) = text := by
  have header := getD_header type errno conf
  have size := length_buildMsgPacket type errno msg conf
  have cells : ∀ index, 36 ≤ index → index < PACKET_SIZE →
      (buildMsgPacket type errno msg conf).getD index 0 =
        if index < 36 + text.length then text.getD (index - 36) 0 else 0 := by
    intro index behind inside
    subst carried
    simp only [buildMsgPacket, getD_take (0 : UInt8) _ _ _ inside]
    cases msg with
    | none =>
        rw [if_neg (by simpa using behind)]
        exact header index behind
    | some msg =>
        simp only [getD_store (0 : UInt8) _ 36 msg, Option.getD_some, behind, true_and]
        split_ifs
        · rfl
        · exact header index behind
  apply cstr_of_getD clean
  · omega
  · intro index inside
    rw [cells _ (by omega) (by omega), if_pos (by omega), Nat.add_sub_cancel_left]
  · rw [cells _ (by omega) (by omega), if_neg (by omega)]

theorem carries_build (conf : Credentials) :
    Carries conf type (buildMsgPacket type errno msg (some conf)) := by
  have bound : 36 ≤ PACKET_SIZE := by decide
  have nameFits := conf.username_fits
  have secretFits := conf.password_fits
  have base : (zeros PACKET_SIZE).length = PACKET_SIZE := by simp [zeros]
  let marked := store 0 (zeros PACKET_SIZE) 1 [MSG_TYPE]
  have markedSize : (zeros PACKET_SIZE).length ≤ marked.length :=
    length_le_store (0 : UInt8) (zeros PACKET_SIZE) 1 [MSG_TYPE]
  have namedSize := length_le_strcpyAt marked 2 conf.username
  have signedSize := length_le_strcpyAt (strcpyAt marked 2 conf.username) 18 conf.password
  have long : PACKET_SIZE ≤ (strcpyAt (strcpyAt marked 2 conf.username) 18 conf.password).length :=
    by omega
  refine ⟨?_, ?_, ?_, msgType_build type errno msg (some conf)⟩
  · exact length_buildMsgPacket type errno msg (some conf)
  · have field := load_store (0 : UInt8) marked 2 (conf.username ++ [0])
    have reach := le_length_store (0 : UInt8) marked 2 (conf.username ++ [0]) (by simp)
    rw [List.length_append, List.length_singleton] at field reach
    calc
      load (buildMsgPacket type errno msg (some conf)) 2 (conf.username.length + 1) =
          load (strcpyAt (strcpyAt marked 2 conf.username) 18 conf.password) 2
            (conf.username.length + 1) := load_build type errno msg _ long _ _ (by omega)
      _ = load (strcpyAt marked 2 conf.username) 2 (conf.username.length + 1) := by
        apply load_store_of_disjoint 0 _ _ _ _ _ _ (by omega)
        simpa only [strcpyAt] using reach
      _ = conf.username ++ [0] := field
  · have field := load_store (0 : UInt8) (strcpyAt marked 2 conf.username) 18
      (conf.password ++ [0])
    rw [List.length_append, List.length_singleton] at field
    calc
      load (buildMsgPacket type errno msg (some conf)) 18 (conf.password.length + 1) =
          load (strcpyAt (strcpyAt marked 2 conf.username) 18 conf.password) 18
            (conf.password.length + 1) := load_build type errno msg _ long _ _ (by omega)
      _ = conf.password ++ [0] := field

end build

end NetworkSystem.Dfc
