import Mathlib.Data.Finmap
import KeyWallet.OathCredential
import KeyWallet.Pages

/-! The store of the OATH application: the files of the credentials, the commands that change them,
LIST and CALCULATE ALL, and the map from names that they stand for. -/
namespace KeyWallet.Oath.Store

open StepSystem
open Pages (Piece allPages)
open Tlv (Item findItem findTag valueOffset encode encodeAll Place TagBytes LengthBytes)

def maxOathCred : Nat := 255

/-- OATH_RESPONSE_MAX_SIZE. -/
def responseMaxSize : Nat := 2036

abbrev Index := Fin maxOathCred

abbrev Slots := Index → Option Entry

/-- The name of the credential in a slot; a file of more than 65535 bytes is not opened. -/
def nameAt (s : Slots) (k : Index) : Option Data :=
  (s k).bind fun e => if 65535 < e.index.length then none else findTag e.index tagName

/-- find_oath_cred: the first file with this name. -/
def findCred (s : Slots) (name : Data) : Option Index :=
  (List.finRange maxOathCred).find? fun k => nameAt s k = some name

def freeSlot (s : Slots) : Option Index := (List.finRange maxOathCred).find? fun k => (s k).isNone

/-- oath_credential_write into a slot. -/
def store (c : Crypto) (s : Slots) (k : Index) (data : Data) : Sw × Slots :=
  match credentialWrite c (s k) data with
  | none => (.execError, s)
  | some e => (.ok, Function.update s k (some e))

def cmdPut (c : Crypto) (data : Data) (s : Slots) : Sw × Slots :=
  match findTag data tagKey with
  | none => (.incorrectParams, s)
  | some key =>
    if key.length < 2 then (.wrongData, s)
    else
      match findTag data tagName with
      | none => (.incorrectParams, s)
      | some name =>
        if isHotp key = true ∧ 65525 < data.length then (.wrongLength, s)
        else
          match findCred s name with
          | some k => store c s k (putData data key)
          | none =>
            match freeSlot s with
            | some k => store c s k (putData data key)
            | none => (.fileFull, s)

def cmdDelete (data : Data) (s : Slots) : Sw × Slots :=
  match findTag data tagName with
  | none => (.incorrectParams, s)
  | some name =>
    match findCred s name with
    | none => (.dataInvalid, s)
    | some k => (.ok, Function.update s k none)

/-- The two names in a request to rename, or the error. -/
def renameNames (data : Data) : Except Sw (Data × Data) :=
  if data.headD 0 ≠ 0x71 then .error .wrongData
  else
    match findItem data tagName with
    | none => .error .wrongData
    | some i =>
      match findTag i.2 tagName with
      | none => .error .wrongData
      | some newName =>
        if i.1.value = newName then .error .wrongData
        else if 255 < newName.length then .error .wrongData
        else .ok (i.1.value, newName)

/-- cmd_rename. Nothing asks whether the new name is taken. -/
def cmdRename (c : Crypto) (data : Data) (s : Slots) : Sw × Slots :=
  match renameNames data with
  | .error sw => (sw, s)
  | .ok (name, newName) =>
    match findCred s name with
    | none => (.dataInvalid, s)
    | some k =>
      match s k with
      | none => (.execError, s)
      | some e =>
        match renameData e.data newName with
        | none => (.wrongData, s)
        | some new => store c s k (new.take (new.length % 65536))

def cmdReset (p1 p2 : Nat) (s : Slots) : Sw × Slots :=
  if p1 ≠ 0xde ∨ p2 ≠ 0xad then (.incorrectP1P2, s) else (.ok, fun _ => none)

inductive Cmd
  | put (data : Data)
  | delete (data : Data)
  | rename (data : Data)
  | reset (p1 p2 : Nat)
  deriving DecidableEq, Repr

/-- A command, and whether the access code is given; RESET does not ask for it. -/
structure Request where
  validated : Bool := true
  cmd : Cmd
  deriving DecidableEq, Repr

def handleCmd (c : Crypto) (s : Slots) : Cmd → Sw × Slots
  | .put data => cmdPut c data s
  | .delete data => cmdDelete data s
  | .rename data => cmdRename c data s
  | .reset p1 p2 => cmdReset p1 p2 s

def Cmd.guarded : Cmd → Bool
  | .reset _ _ => false
  | _ => true

def answer (c : Crypto) (s : Slots) (r : Request) : Sw × Slots :=
  if r.cmd.guarded && !r.validated then (.securityStatusNotSatisfied, s) else handleCmd c s r.cmd

def step (c : Crypto) (s : Slots) (r : Request) : Slots := (answer c s r).2

/-! LIST and CALCULATE ALL, which give their lines in responses of a limited size. -/

/-- The files, in the order of their numbers. -/
def present (s : Slots) : List Entry := (List.finRange maxOathCred).filterMap s

/-- Does the credential ask for a touch? -/
def needsTouch (property : Option Data) : Bool :=
  property.any fun p => decide (0 < p.length) && decide (p.headD 0 &&& propTouch ≠ 0)

structure Line where
  type : BitVec 8
  name : Data
  props : Option (BitVec 8)
  deriving DecidableEq, Repr

def Line.bytes (l : Line) : Data :=
  [BitVec.ofNat 8 tagNameList, BitVec.ofNat 8 (l.name.length + 1 + l.props.toList.length), l.type] ++
    l.name ++ l.props.toList

def listProps (index : Data) : BitVec 8 :=
  (if hasPasswordSafe index then 0x4 else 0) ||| (if needsTouch (findTag index tagProperty) then 0x1 else 0)

/-- A file in oath_list_next. -/
def listPiece (c : Crypto) (ext : Bool) (e : Entry) : Piece Line :=
  if 65535 < e.index.length then .skip
  else
    match findTag e.index tagName, findTag e.index tagKey with
    | some name, some key =>
      match plainKey c key with
      | none => .skip
      | some plain =>
        if plain.length < 2 then .skip
        else
          let extra := if ext then 1 else 0
          if 255 - (1 + extra) < name.length ∨ responseMaxSize < 3 + name.length + extra then .tooLong
          else .line (3 + name.length + extra) fun _ =>
            ⟨plain.headD 0, name, if ext then some (listProps e.index) else none⟩
    | _, _ => .skip

/-- The lines of a command and of as many SEND REMAINING as it takes. -/
def gathered {L : Type} (bytes : L → Data) (piece : Entry → Piece L) (es : List Entry) :
    Except Sw (List L) :=
  match allPages responseMaxSize (fun l => (bytes l).length) piece (es.length + 1) es with
  | none => .error .wrongLength
  | some pages => .ok pages.flatten

def cmdList (c : Crypto) (ext : Bool) (s : Slots) : Except Sw (List Line) :=
  gathered Line.bytes (listPiece c ext) (present s)

/-- The size of a digest. -/
def mdSize (md : Nat) : Nat := if md = 1 then 20 else if md = 2 then 32 else 64

/-- What CALCULATE ALL says about a credential: its name and what follows it. A placeholder has no
code. -/
structure Result where
  name : Data
  tag : Nat
  digits : BitVec 8
  code : Data
  deriving DecidableEq, Repr

/-- A code as CALCULATE gives it, too. -/
def codeBytes (tag : Nat) (digits : BitVec 8) (code : Data) : Data :=
  [BitVec.ofNat 8 tag, BitVec.ofNat 8 (code.length + 1), digits] ++ code

def Result.bytes (r : Result) : Data :=
  [BitVec.ofNat 8 tagName, BitVec.ofNat 8 r.name.length] ++ r.name ++ codeBytes r.tag r.digits r.code

/-- calculate_oath: the code, or nothing for an unknown algorithm. -/
def calculateOath (hmac : Nat → Data → Data → Data) (truncate : Bool) (key challenge : Data) :
    Option Data :=
  (mdInfo (key.headD 0)).map fun md =>
    let digest := hmac md (key.drop 2) challenge
    if truncate then
      let offset := (digest.getD (mdSize md - 1) 0).toNat % 16
      [digest.getD offset 0 &&& 0x7f, digest.getD (offset + 1) 0, digest.getD (offset + 2) 0,
        digest.getD (offset + 3) 0]
    else digest

/-- oath_response_has_room behind `size` bytes. -/
def hasRoom (size len : Nat) : Bool := decide (size ≤ responseMaxSize ∧ len ≤ responseMaxSize - size)

/-- calculate_oath behind `size` bytes of the response. For a truncated code it asks for seven bytes and
writes six. -/
def calculateOathAt (hmac : Nat → Data → Data → Data) (truncate : Bool) (key challenge : Data)
    (size : Nat) : Option Data :=
  let room := if truncate then 7 else (mdInfo (key.headD 0)).elim 0 mdSize + 2
  if hasRoom size room then calculateOath hmac truncate key challenge else none

/-- A file in oath_calculate_all_next. -/
def calculatePiece (c : Crypto) (hmac : Nat → Data → Data → Data) (truncate : Bool) (challenge : Data)
    (e : Entry) : Piece Result :=
  if 65535 < e.data.length then .skip
  else
    match findTag e.data tagName, findTag e.data tagKey with
    | some name, some key =>
      if 255 < name.length then .tooLong
      else
        match plainKey c key with
        | none => .skip
        | some plain =>
          if plain.length < 2 then .skip
          else
            let touch := needsTouch (findTag e.data tagProperty)
            let resultLen :=
              if isHotp plain || touch then 3
              else if truncate then 7
              else (mdInfo (plain.headD 0)).elim 0 fun md => mdSize md + 3
            let digits := plain.getD 1 0
            if resultLen = 0 ∨ responseMaxSize < 2 + name.length + resultLen then .tooLong
            else .line (2 + name.length + resultLen) fun size =>
              if isHotp plain then ⟨name, 0x77, digits, []⟩
              else if touch then ⟨name, 0x7c, digits, []⟩
              else ⟨name, if truncate then 0x76 else 0x75, digits,
                (calculateOathAt hmac truncate plain challenge (size + 2 + name.length + 1)).getD []⟩
    | _, _ => .skip

def cmdCalculateAll (c : Crypto) (hmac : Nat → Data → Data → Data) (truncate : Bool) (challenge : Data)
    (s : Slots) : Except Sw (List Result) :=
  gathered Result.bytes (calculatePiece c hmac truncate challenge) (present s)

end KeyWallet.Oath.Store
