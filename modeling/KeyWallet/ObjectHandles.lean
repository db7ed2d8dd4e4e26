import KeyWallet.HandleTable
import KeyWallet.StepSystem
import KeyWallet.ObjectTxnCrash

/-! The handles of object_store.c and object_store_txn.c. A handle remembers the generation and the
size of what it was opened on, and every read compares them with what is stored. -/
namespace KeyWallet

namespace Handles

open HandleTable (Table)
open Container (ObjErr Data)

/-- The errors of a read. -/
inductive ReadError where
  | staleHandle
  | wrongLength
  | store (e : ObjErr)
  deriving DecidableEq, Repr

/-- file_object_id_t. -/
structure ObjectId where
  namespaceId : Nat
  objectType : Nat
  fid : Nat
  deriving DecidableEq, Repr

/-- file_object_id_valid. -/
def ObjectId.valid (id : ObjectId) : Bool := id.fid ≠ 0 && id.fid ≠ 0xffff

/-- What the header of a record says; magic, version and header size are always the same. -/
structure Header where
  namespaceId : Nat
  objectType : Nat
  fid : Nat
  generation : Nat
  payloadSize : Nat
  deriving DecidableEq, Repr

inductive Content where
  | record (header : Header) (payload : Data)
  | other (size : Nat)
  deriving DecidableEq, Repr

/-- `none` is a file that does not exist. -/
abbrev Files := Nat → Option Content

/-- file_object_record_t, with the payload in place of its offset. -/
structure Record where
  generation : Nat
  payload : Data
  deriving DecidableEq, Repr

/-- file_object_parse. -/
def parse (files : Files) (id : ObjectId) : Except ObjErr Record :=
  if id.valid = false then .error .fileNotFound
  else
    match files id.fid with
    | none => .error .fileNotFound
    | some (.other 0) => .error .fileNotFound
    | some (.other _) => .error .wrongData
    | some (.record h payload) =>
      if h.namespaceId ≠ id.namespaceId ∨ h.objectType ≠ id.objectType ∨ h.fid ≠ id.fid ∨
          h.generation = 0 ∨ h.payloadSize ≠ payload.length then
        .error .wrongData
      else .ok ⟨h.generation, payload⟩

/-- file_object_handle_entry_t without its token. -/
structure Entry where
  objectId : ObjectId
  generation : Nat
  payloadSize : Nat
  deriving DecidableEq, Repr

/-- FILE_OBJECT_MAX_HANDLES. -/
def maxHandles : Nat := 8

structure Store where
  files : Files
  handles : Table Entry maxHandles

/-- file_object_resolve. -/
def resolve (s : Store) (handle : Nat) : Except ReadError Record :=
  match HandleTable.lookup s.handles handle with
  | none => .error .staleHandle
  | some e =>
    match parse s.files e.objectId with
    | .error .fileNotFound => .error .staleHandle
    | .error .wrongData => .error .staleHandle
    | .error err => .error (.store err)
    | .ok record =>
      if record.generation ≠ e.generation ∨ record.payload.length ≠ e.payloadSize then
        .error .staleHandle
      else .ok record

/-- The bytes of a payload that a read asks for. -/
def window (payload : Data) (offset len : Nat) : Except ReadError Data :=
  if payload.length < offset ∨ payload.length - offset < len then .error .wrongLength
  else .ok ((payload.drop offset).take len)

/-- file_object_read_at. -/
def readAt (s : Store) (handle offset len : Nat) : Except ReadError Data :=
  match resolve s handle with
  | .error e => .error e
  | .ok record => window record.payload offset len

/-- file_object_open. -/
def openObject (s : Store) (id : ObjectId) : Except ObjErr (Nat × Store) :=
  if id.valid = false then .error .nullParam
  else
    match parse s.files id with
    | .error e => .error e
    | .ok record =>
      match HandleTable.insert s.handles ⟨id, record.generation, record.payload.length⟩ with
      | none => .error .noMemory
      | some (token, handles) => .ok (token, { s with handles := handles })

/-- file_object_close. -/
def close (s : Store) (handle : Nat) : Except ReadError Store :=
  match HandleTable.remove s.handles handle with
  | none => .error .staleHandle
  | some handles => .ok { s with handles := handles }

def uint32Max : Nat := 0xffffffff

/-- FILE_OBJECT_HEADER_SIZE. -/
def headerSize : Nat := 20

/-- The generation that a put gives the object. -/
def nextGeneration (files : Files) (id : ObjectId) : Except ObjErr Nat :=
  match files id.fid with
  | none => .ok 1
  | some (.other 0) => .ok 1
  | some _ =>
    match parse files id with
    | .error e => .error e
    | .ok current =>
      if current.generation = uint32Max then .error .wrongData else .ok (current.generation + 1)

/-- What the storage does with a file_put_data: it succeeds, or it fails and leaves the file as it
was, without contents, with contents that are no record, or with the new header and a payload of
which not all is new. -/
inductive Written where
  | done
  | kept
  | gone
  | garbled (size : Nat)
  | torn (payload : Data)

/-- The record that a put writes. -/
def recordOf (id : ObjectId) (generation : Nat) (payload : Data) : Content :=
  .record ⟨id.namespaceId, id.objectType, id.fid, generation, payload.length⟩ payload

/-- What a put leaves in the file. -/
def Written.content (w : Written) (old : Option Content) (id : ObjectId) (generation : Nat)
    (data : Data) : Option Content :=
  match w with
  | .done => some (recordOf id generation data)
  | .kept => old
  | .gone => some (.other 0)
  | .garbled size => some (.other size)
  | .torn payload => if payload.length = data.length then some (recordOf id generation payload) else old

/-- What a put comes to when it gets as far as file_put_data: the generation it writes. -/
def putGeneration (files : Files) (id : ObjectId) (data : Data) : Except ObjErr Nat :=
  if id.valid = false ∨ uint32Max < data.length then .error .nullParam
  else
    match nextGeneration files id with
    | .error e => .error e
    | .ok generation =>
      if uint32Max - headerSize < data.length then .error .noMemory else .ok generation

/-- file_object_put, with what the storage makes of the write. -/
def put (w : Written) (s : Store) (id : ObjectId) (data : Data) : Store :=
  match putGeneration s.files id data with
  | .error _ => s
  | .ok generation => { s with
      files := Function.update s.files id.fid (w.content (s.files id.fid) id generation data) }

/-- file_object_delete and file_object_delete_no_commit, with whether the storage removed the
contents. -/
def delete (removed : Bool) (s : Store) (id : ObjectId) : Store :=
  if id.valid = false then s
  else
    match parse s.files id with
    | .error _ => s
    | .ok _ => if removed then { s with files := Function.update s.files id.fid none } else s

end Handles

/-! What a call does to the generation of a transactional object. -/

namespace Txn

open CrashProgram
open Container (ObjErr)

section Generations

variable {Tag : Type} [DecidableEq Tag] {auth : Authenticator Tag} {L : Layout} {st : State}

theorem payloadAt_length {files : Files Tag} (h : recover auth L files = .ok st)
    (hd : st.deleted = false) : (payloadAt L files st.recordSlot).length = st.payloadSize := by
  obtain ⟨-, -, hvalid⟩ := parseCommit_ok (recover_ok h).2
  obtain ⟨tag, hrecord⟩ := hvalid hd
  unfold validateRecord at hrecord
  unfold payloadAt
  split_ifs at hrecord with hslot
  split at hrecord
  · cases hrecord
  · cases hrecord
  · next header payload tag' hfile =>
    split_ifs at hrecord with hsize
    rw [hfile]
    simp only [not_or, not_lt, ne_eq, not_not] at hsize
    exact hsize.2
  · cases hrecord

/-- The object is what it was. -/
def Kept (auth : Authenticator Tag) (L : Layout) (files files' : Files Tag) : Prop :=
  recover auth L files' = recover auth L files ∧ ∀ st, recover auth L files = .ok st →
    st.deleted = false → payloadAt L files' st.recordSlot = payloadAt L files st.recordSlot

/-- The object has a later generation than before. -/
def Newer (auth : Authenticator Tag) (L : Layout) (files files' : Files Tag) : Prop :=
  ∃ st', recover auth L files' = .ok st' ∧
    ∀ st, recover auth L files = .ok st → st.generation < st'.generation

/-- The files of a slot are the same. -/
def SameSlot (L : Layout) (s : Nat) (files files' : Files Tag) : Prop :=
  files' (L.commitFid s) = files (L.commitFid s) ∧ files' (L.recordFid s) = files (L.recordFid s)

variable {before : Except ObjErr (Option Data)} {t g : Nat} {files : Files Tag} {n : TxnCache Tag}

theorem Kept.refl (auth : Authenticator Tag) (L : Layout) (files : Files Tag) :
    Kept auth L files files := ⟨rfl, fun _ _ _ => rfl⟩

omit [DecidableEq Tag] in
theorem SameSlot.write (h : SameSlot L (1 - t) files n.view) (ht : t < 2) {k : Nat}
    (hk : k = L.recordFid t ∨ k = L.commitFid t) (c : Option (Content Tag)) :
    SameSlot L (1 - t) files (n.write k c).view := by
  have hother : 1 - t < 2 := by omega
  have hne : 1 - t ≠ t := by omega
  obtain ⟨hcr, hslots⟩ := L.fids hother ht
  obtain ⟨hcc, hrr⟩ := hslots hne
  have hrc : L.recordFid (1 - t) ≠ L.commitFid t := (L.fids ht hother).1.symm
  have hcommit : L.commitFid (1 - t) ≠ k := by
    rcases hk with rfl | rfl
    · exact hcr
    · exact hcc
  have hrecord : L.recordFid (1 - t) ≠ k := by
    rcases hk with rfl | rfl
    · exact hrr
    · exact hrc
  exact ⟨(Function.update_of_ne hcommit _ _).trans h.1, (Function.update_of_ne hrecord _ _).trans h.2⟩

theorem Holding.kept (h : Holding auth L before t g (Cache.boot files ()))
    (hn : Holding auth L before t g n) (hsame : SameSlot L (1 - t) files n.view) :
    Kept auth L files n.view := by
  obtain ⟨-, ⟨hv, -, hb⟩ | ⟨st, hc, -, hb⟩⟩ := h
  · obtain ⟨-, ⟨hv', -⟩ | ⟨st', -, -, hb'⟩⟩ := hn
    · have hrec : recover auth L files = .error .fileNotFound := hv.recover (Cache.possible_view _)
      refine ⟨(hv'.recover n.possible_view).trans hrec.symm, fun st hst => ?_⟩
      rw [hrec] at hst
      cases hst
    · rw [hb] at hb'
      cases hb'
  · have hparse : parseCommit auth L n.view (1 - t) = .ok st := by
      apply parseCommit_congr hc.parsed hsame.1
      intro hd
      rw [hc.own hd]
      exact hsame.2
    have hrec : recover auth L files = .ok st := hc.recover (Cache.possible_view _)
    obtain ⟨-, ⟨hv', -, hb'⟩ | ⟨st', hc', -, -⟩⟩ := hn
    · rw [hb] at hb'
      cases hb'
    · obtain rfl : st = st' := Except.ok.inj (hparse.symm.trans hc'.parsed)
      refine ⟨(hc'.recover n.possible_view).trans hrec.symm, fun st' hst hd => ?_⟩
      obtain rfl : st = st' := Except.ok.inj (hrec.symm.trans hst)
      rw [hc.own hd]
      simp only [payloadAt, hsame.2]

theorem Staged.newer {new : Option Data} {d : CommitHeader Tag} (hm : Staged auth L before new d n)
    (h : Holding auth L before t g (Cache.boot files ())) (hg : d.generation = g) :
    Newer auth L files (installed auth L d n.view) := by
  obtain ⟨st, hparse, hgen, -⟩ := hm.valid
  obtain ⟨st', hcur, -⟩ := hm.current
  obtain rfl : st = st' := Except.ok.inj (hparse.symm.trans hcur.parsed)
  refine ⟨st, hcur.recover (Cache.possible_view _), fun st₀ hst₀ => ?_⟩
  obtain ⟨-, ⟨hv, -, -⟩ | ⟨st₁, hc, hg₁, -⟩⟩ := h
  · have hrec : recover auth L files = .error .fileNotFound := hv.recover (Cache.possible_view _)
    rw [hrec] at hst₀
    cases hst₀
  · have hrec : recover auth L files = .ok st₁ := hc.recover (Cache.possible_view _)
    obtain rfl : st₁ = st₀ := Except.ok.inj (hrec.symm.trans hst₀)
    omega

theorem always_stage_kept (c : Call) (h : Sound auth L (Cache.boot files ())) :
    always (c.stage auth L)
      (fun d n => Kept auth L files n.view ∧ Newer auth L files (installed auth L d n.view) ∧
        ∃ b new, Staged auth L b new d n)
      (fun _ n => Kept auth L files n.view) (fun _ => True) (Cache.boot files ()) := by
  have hfinish : ∀ {t g}, Holding auth L (contents auth L files) t g (Cache.boot files ()) →
      ∀ n, (Holding auth L (contents auth L files) t g n ∧ SameSlot L (1 - t) files n.view) →
        Kept auth L files n.view := fun hb n hn => hb.kept hn.1 hn.2
  cases c with
  | put data =>
    cases hnext : nextState auth L files with
    | error e => exact stagePut_refused hnext fun _ => Kept.refl auth L files
    | ok p =>
      obtain ⟨t, g⟩ := p
      have hhold := h.nextState hnext
      apply always_mono (always_fill (I := fun n => Holding auth L (contents auth L files) t g n ∧
          SameSlot L (1 - t) files n.view) data hhold.1 hnext ⟨hhold, rfl, rfl⟩
        (fun n hn => ⟨hn.1.write (.inr ⟨rfl, rfl⟩), hn.2.write hhold.1 (.inr rfl) _⟩)
        (fun n v _ hn => ⟨hn.1.write (.inl rfl), hn.2.write hhold.1 (.inl rfl) _⟩)) _
        (fun _ => hfinish hhold) (fun _ _ => trivial)
      rintro _ _ ⟨rfl, hsize, n, rfl, hn, hempty, hfile⟩
      have hstaged := hn.1.staged_put hsize hempty hfile
      exact ⟨hhold.kept hn.1.sync hn.2, hstaged.newer hhold rfl, _, _, hstaged⟩
  | delete =>
    cases hstate : deleteState auth L files with
    | error e => exact stageDelete_refused hstate fun _ => Kept.refl auth L files
    | ok p =>
      obtain ⟨t, g⟩ := p
      have hhold := h.nextState (nextState_of_deleteState hstate)
      apply always_mono (always_clear (I := fun n => Holding auth L (contents auth L files) t g n ∧
          SameSlot L (1 - t) files n.view) hhold.1 hstate ⟨hhold, rfl, rfl⟩
        (fun n hn => ⟨hn.1.write (.inr ⟨rfl, rfl⟩), hn.2.write hhold.1 (.inr rfl) _⟩)
        (fun n hn => ⟨hn.1.write (.inl rfl), hn.2.write hhold.1 (.inl rfl) _⟩)) _
        (fun _ => hfinish hhold) (fun _ _ => trivial)
      rintro _ _ ⟨rfl, n, rfl, hn, hempty⟩
      have hstaged := hn.1.staged_delete hempty
      exact ⟨hhold.kept hn.1.sync hn.2, hstaged.newer hhold rfl, _, _, hstaged⟩

theorem always_call_advances (c : Call) (h : Sound auth L (Cache.boot files ())) :
    always (c.run auth L) (fun _ n => Newer auth L files n.view)
      (fun _ n => Kept auth L files n.view ∨ Newer auth L files n.view) (fun _ => True)
      (Cache.boot files ()) := by
  rw [c.run_eq, always_bind]
  apply always_mono (always_stage_kept c h) _ (fun _ _ hn => .inl hn) (fun _ _ => trivial)
  rintro d n ⟨hkept, hnewer, b, new, hstaged⟩
  apply always_mono (always_install hstaged) _ _ (fun _ _ => trivial)
  · rintro _ n' ⟨-, hview⟩
    rw [hview]
    exact hnewer
  · intro _ n' hn'
    rcases hn' n'.view (.inr rfl) with hview | hview
    · rw [hview]
      exact .inl hkept
    · rw [hview]
      exact .inr hnewer

end Generations

end Txn

namespace Handles

open HandleTable (Table)
open Container (ObjErr Data)
open CrashProgram (Reply Outcome perform)

/-- file_object_txn_handle_entry_t without its token. -/
structure TxnEntry (ι : Type) where
  object : ι
  state : Txn.State

/-- FILE_OBJECT_TXN_MAX_HANDLES. -/
def maxTxnHandles : Nat := 4

/-- The four files of an object are private to it, so each object has its own. -/
structure TxnStore (ι Tag : Type) where
  files : ι → Txn.Files Tag
  handles : Table (TxnEntry ι) maxTxnHandles

section TxnStore

variable {ι Tag : Type} [DecidableEq ι] [DecidableEq Tag] (auth : ι → Txn.Authenticator Tag)
  (L : ι → Txn.Layout)

/-- file_object_txn_resolve. -/
def txnResolve (s : TxnStore ι Tag) (handle : Nat) : Except ReadError (TxnEntry ι × Txn.State) :=
  match HandleTable.lookup s.handles handle with
  | none => .error .staleHandle
  | some e =>
    match Txn.recover (auth e.object) (L e.object) (s.files e.object) with
    | .error err => if Txn.invalidRecord err then .error .staleHandle else .error (.store err)
    | .ok st =>
      if st.deleted = true ∨ st.generation ≠ e.state.generation ∨ st.recordId ≠ e.state.recordId ∨
          st.recordSlot ≠ e.state.recordSlot ∨ st.payloadSize ≠ e.state.payloadSize then
        .error .staleHandle
      else .ok (e, st)

/-- file_object_txn_read_at. -/
def txnReadAt (s : TxnStore ι Tag) (handle offset len : Nat) : Except ReadError Data :=
  match txnResolve auth L s handle with
  | .error e => .error e
  | .ok (e, st) =>
    if st.payloadSize < offset ∨ st.payloadSize - offset < len then .error .wrongLength
    else .ok (((Txn.payloadAt (L e.object) (s.files e.object) st.recordSlot).drop offset).take len)

/-- file_object_txn_open. -/
def txnOpen (s : TxnStore ι Tag) (o : ι) : Except ObjErr (Nat × TxnStore ι Tag) :=
  match Txn.recover (auth o) (L o) (s.files o) with
  | .error e => .error e
  | .ok st =>
    if st.deleted then .error .fileNotFound
    else
      match HandleTable.insert s.handles ⟨o, st⟩ with
      | none => .error .noMemory
      | some (token, handles) => .ok (token, { s with handles := handles })

/-- file_object_txn_close. -/
def txnClose (s : TxnStore ι Tag) (handle : Nat) : Except ReadError (TxnStore ι Tag) :=
  match HandleTable.remove s.handles handle with
  | none => .error .staleHandle
  | some handles => .ok { s with handles := handles }

/-- What the storage says to a write or a commit while the power stays on. -/
def toReply : Option Bool → Reply
  | none => .ok
  | some happened => .refused happened

/-- file_object_txn_put or file_object_txn_delete: whether it succeeded, and the files after it. -/
def txnCall (s : TxnStore ι Tag) (c : Txn.Call) (o : ι) (replies : List (Option Bool)) :
    Outcome ObjErr Unit × Txn.Files Tag :=
  let r := perform (c.run (auth o) (L o)) (CrashProgram.Cache.boot (s.files o) ())
    (replies.map toReply)
  (r.1, r.2.view)

end TxnStore

/-! Runs, with a record of which version each handle was opened on. -/

/-- The present version of each object, and for each token the version it was opened on with its
payload. -/
structure Versions (κ : Type) where
  current : κ → Nat := fun _ => 0
  opened : Nat → Nat × Data := fun _ => (0, [])
  clock : Nat := 0

namespace Versions

variable {κ : Type} [DecidableEq κ]

/-- The object has a new version. -/
def touch (v : Versions κ) (k : κ) : Versions κ :=
  { v with current := Function.update v.current k (v.clock + 1), clock := v.clock + 1 }

omit [DecidableEq κ] in
/-- The token stands for the present version. -/
def opens (v : Versions κ) (token : Nat) (k : κ) (payload : Data) : Versions κ :=
  { v with opened := Function.update v.opened token (v.current k, payload) }

end Versions

inductive PlainInput where
  | openObject (id : ObjectId)
  | put (how : Written) (id : ObjectId) (data : Data)
  | delete (removed : Bool) (id : ObjectId)
  | read (handle offset len : Nat)
  | close (handle : Nat)

inductive TxnInput (ι : Type) where
  | openObject (o : ι)
  | call (c : Txn.Call) (o : ι) (replies : List (Option Bool))
  | read (handle offset len : Nat)
  | close (handle : Nat)

/-- Calls to the two stores, in any order. -/
inductive Input (ι : Type) where
  | plain (i : PlainInput)
  | txn (i : TxnInput ι)

structure PlainWorld where
  store : Store
  versions : Versions Nat

structure TxnWorld (ι Tag : Type) where
  store : TxnStore ι Tag
  versions : Versions ι

structure World (ι Tag : Type) where
  plain : PlainWorld
  txn : TxnWorld ι Tag

/-- The versions after the file of an object became `files'`. -/
def noteChange (files files' : Files) (fid : Nat) (v : Versions Nat) : Versions Nat :=
  if files' fid = files fid then v else v.touch fid

def plainStep (w : PlainWorld) : PlainInput → PlainWorld
  | .openObject id =>
    match openObject w.store id, parse w.store.files id with
    | .ok (token, store), .ok record =>
      { store := store, versions := w.versions.opens token id.fid record.payload }
    | _, _ => w
  | .put how id data =>
    let store := put how w.store id data
    { store := store, versions := noteChange w.store.files store.files id.fid w.versions }
  | .delete removed id =>
    let store := delete removed w.store id
    { store := store, versions := noteChange w.store.files store.files id.fid w.versions }
  | .read _ _ _ => w
  | .close handle =>
    match close w.store handle with
    | .error _ => w
    | .ok store => { w with store := store }

section Runs

variable {ι Tag : Type} [DecidableEq ι] [DecidableEq Tag] (auth : ι → Txn.Authenticator Tag)
  (L : ι → Txn.Layout)

/-- A call that succeeds, or that changes what is recovered, gives the object a new version. -/
def txnStep (w : TxnWorld ι Tag) : TxnInput ι → TxnWorld ι Tag
  | .openObject o =>
    match txnOpen auth L w.store o, Txn.recover (auth o) (L o) (w.store.files o) with
    | .ok (token, store), .ok st =>
      let payload := Txn.payloadAt (L o) (w.store.files o) st.recordSlot
      { store := store, versions := w.versions.opens token o payload }
    | _, _ => w
  | .call c o replies =>
    let r := txnCall auth L w.store c o replies
    { store := { w.store with files := Function.update w.store.files o r.2 }
      versions := if r.1 ≠ .done () ∧ Txn.recover (auth o) (L o) r.2 =
        Txn.recover (auth o) (L o) (w.store.files o) then w.versions else w.versions.touch o }
  | .read _ _ _ => w
  | .close handle =>
    match txnClose w.store handle with
    | .error _ => w
    | .ok store => { w with store := store }

def step (w : World ι Tag) : Input ι → World ι Tag
  | .plain i => { w with plain := plainStep w.plain i }
  | .txn i => { w with txn := txnStep auth L w.txn i }

/-- A read gives bytes of the version that the handle was opened on, which is still the present one,
or it says that the handle is stale. A read past the end of that version is refused as such. -/
def Faithful (result : Except ReadError Data) (now : Option Nat) (version : Nat × Data)
    (offset len : Nat) : Prop :=
  match result with
  | .ok bytes => now = some version.1 ∧ window version.2 offset len = .ok bytes
  | .error .staleHandle => True
  | .error .wrongLength => now = some version.1 ∧ window version.2 offset len = .error .wrongLength
  | .error (.store _) => False

instance (result : Except ReadError Data) (now : Option Nat) (version : Nat × Data)
    (offset len : Nat) : Decidable (Faithful result now version offset len) :=
  match result with
  | .ok bytes => inferInstanceAs (Decidable (now = some version.1 ∧ window version.2 offset len = .ok bytes))
  | .error .staleHandle => .isTrue trivial
  | .error .wrongLength => inferInstanceAs
      (Decidable (now = some version.1 ∧ window version.2 offset len = .error .wrongLength))
  | .error (.store _) => .isFalse id

/-- What is expected of a call. -/
def ReadsOpened (w : World ι Tag) : Input ι → Prop
  | .plain (.read handle offset len) => Faithful (readAt w.plain.store handle offset len)
      ((HandleTable.lookup w.plain.store.handles handle).map fun e =>
        w.plain.versions.current e.objectId.fid) (w.plain.versions.opened handle) offset len
  | .txn (.read handle offset len) => Faithful (txnReadAt auth L w.txn.store handle offset len)
      ((HandleTable.lookup w.txn.store.handles handle).map fun e => w.txn.versions.current e.object)
      (w.txn.versions.opened handle) offset len
  | _ => True

/-- No open handle of the object has the generation and the size that the put gives it. -/
def FreshPut (s : Store) (id : ObjectId) (data : Data) : Prop :=
  ∀ p ∈ HandleTable.entries s.handles, p.2.objectId = id →
    putGeneration s.files id data = .ok p.2.generation → p.2.payloadSize ≠ data.length

instance (s : Store) (id : ObjectId) (data : Data) : Decidable (FreshPut s id data) :=
  inferInstanceAs (Decidable (∀ p ∈ HandleTable.entries s.handles, _))

def Fresh (w : World ι Tag) : Input ι → Prop
  | .plain (.put _ id data) => FreshPut w.plain.store id data
  | _ => True

/-- Nothing is open. -/
def start (files : Files) (txnFiles : ι → Txn.Files Tag) : World ι Tag where
  plain := { store := { files := files, handles := HandleTable.empty _ _ }, versions := {} }
  txn := { store := { files := txnFiles, handles := HandleTable.empty _ _ }, versions := {} }

end Runs

section Plain

/-- What an open handle can still read is the version it was opened on. -/
def PlainTrue (w : PlainWorld) : Prop :=
  ∀ handle e, HandleTable.lookup w.store.handles handle = some e → ∀ record,
    parse w.store.files e.objectId = .ok record → record.generation = e.generation →
    record.payload.length = e.payloadSize →
    w.versions.current e.objectId.fid = (w.versions.opened handle).1 ∧
      record.payload = (w.versions.opened handle).2

variable {w : PlainWorld}

theorem parse_error {files : Files} {id : ObjectId} {e : ObjErr} (h : parse files id = .error e) :
    e = .fileNotFound ∨ e = .wrongData := by
  unfold parse at h
  split_ifs at h
  · exact .inl (Except.error.inj h).symm
  · split at h
    · exact .inl (Except.error.inj h).symm
    · exact .inl (Except.error.inj h).symm
    · exact .inr (Except.error.inj h).symm
    · split_ifs at h
      exact .inr (Except.error.inj h).symm

theorem parse_congr {files files' : Files} {id : ObjectId} (h : files' id.fid = files id.fid) :
    parse files' id = parse files id := by
  unfold parse
  rw [h]

theorem parse_recordOf {files : Files} {id id' : ObjectId} {generation : Nat} {payload : Data}
    {record : Record} (hfile : files id'.fid = some (recordOf id generation payload))
    (h : parse files id' = .ok record) :
    id' = id ∧ record = ⟨generation, payload⟩ := by
  unfold parse at h
  split_ifs at h
  rw [hfile] at h
  simp only [recordOf] at h
  split_ifs at h with hmatch
  simp only [not_or, ne_eq, not_not] at hmatch
  refine ⟨?_, (Except.ok.inj h).symm⟩
  cases id
  cases id'
  simp_all

theorem parse_other {files : Files} {id : ObjectId} (size : Nat) {record : Record}
    (hfile : files id.fid = none ∨ files id.fid = some (.other size)) :
    parse files id ≠ .ok record := by
  intro h
  unfold parse at h
  split_ifs at h
  rcases hfile with hfile | hfile
  · simp [hfile] at h
  · cases size with
    | zero => simp [hfile] at h
    | succ n => simp [hfile] at h

theorem PlainTrue.faithful (h : PlainTrue w) (handle offset len : Nat) :
    Faithful (readAt w.store handle offset len)
      ((HandleTable.lookup w.store.handles handle).map fun e => w.versions.current e.objectId.fid)
      (w.versions.opened handle) offset len := by
  unfold readAt resolve
  cases hlook : HandleTable.lookup w.store.handles handle with
  | none => exact trivial
  | some e =>
    dsimp only [Option.map_some]
    cases hparse : parse w.store.files e.objectId with
    | error err =>
      rcases parse_error hparse with rfl | rfl
      · exact trivial
      · exact trivial
    | ok record =>
      dsimp only
      split_ifs with hstale
      · exact trivial
      · simp only [not_or, ne_eq, not_not] at hstale
        obtain ⟨hnow, hpayload⟩ := h handle e hlook record hparse hstale.1 hstale.2
        show Faithful (window record.payload offset len) _ _ _ _
        rw [hpayload]
        cases hwindow : window (w.versions.opened handle).2 offset len with
        | ok bytes => exact ⟨congrArg some hnow, hwindow⟩
        | error err =>
          have herr : err = .wrongLength := by
            unfold window at hwindow
            split_ifs at hwindow
            exact (Except.error.inj hwindow).symm
          subst herr
          exact ⟨congrArg some hnow, hwindow⟩

theorem PlainTrue.change (h : PlainTrue w) {files : Files} {fid : Nat}
    (hother : ∀ k, k ≠ fid → files k = w.store.files k)
    (hnew : files fid ≠ w.store.files fid → ∀ handle e record,
      HandleTable.lookup w.store.handles handle = some e → e.objectId.fid = fid →
      parse files e.objectId = .ok record → record.generation = e.generation →
      record.payload.length ≠ e.payloadSize) :
    PlainTrue { store := { w.store with files := files }
                versions := noteChange w.store.files files fid w.versions } := by
  intro handle e hlook record hparse hgen hlen
  by_cases hsame : files fid = w.store.files fid
  · have hall : files = w.store.files := by
      funext k
      by_cases hk : k = fid
      · rw [hk, hsame]
      · exact hother k hk
    simp only [noteChange, if_pos hsame]
    simp only [hall] at hparse
    exact h handle e hlook record hparse hgen hlen
  · simp only [noteChange, if_neg hsame, Versions.touch]
    by_cases hfid : e.objectId.fid = fid
    · exact absurd hlen (hnew hsame handle e record hlook hfid hparse hgen)
    · rw [Function.update_of_ne hfid]
      rw [parse_congr (hother _ hfid)] at hparse
      exact h handle e hlook record hparse hgen hlen

theorem PlainTrue.same (h : PlainTrue w) (fid : Nat) : PlainTrue
    { store := w.store, versions := noteChange w.store.files w.store.files fid w.versions } :=
  h.change (fun _ _ => rfl) fun hne => absurd rfl hne

theorem PlainTrue.put (h : PlainTrue w) (how : Written) {id : ObjectId} {data : Data}
    (hfresh : FreshPut w.store id data) : PlainTrue (plainStep w (.put how id data)) := by
  show PlainTrue
    { store := Handles.put how w.store id data
      versions := noteChange w.store.files (Handles.put how w.store id data).files id.fid w.versions }
  unfold Handles.put
  cases hgen : putGeneration w.store.files id data with
  | error e => exact h.same id.fid
  | ok generation =>
    refine PlainTrue.change h (fun k hk => Function.update_of_ne hk _ _) ?_
    intro hchanged handle e record hlook hfid hparse hrecord hlen
    rw [Function.update_self] at hchanged
    have hfile : Function.update w.store.files id.fid (how.content (w.store.files id.fid) id generation
        data) e.objectId.fid = how.content (w.store.files id.fid) id generation data := by
      rw [hfid, Function.update_self]
    -- A new record of the object has the generation and the size of the put.
    have hclash : ∀ payload : Data, payload.length = data.length →
        how.content (w.store.files id.fid) id generation data =
          some (recordOf id generation payload) → False := by
      intro payload hsize hcontent
      obtain ⟨hid, hnew⟩ := parse_recordOf (hfile.trans hcontent) hparse
      subst hnew
      refine hfresh _ (HandleTable.mem_entries hlook) hid ?_ (hlen.symm.trans hsize)
      rw [hgen, ← hrecord]
    cases how with
    | done => exact hclash data rfl rfl
    | kept => exact hchanged rfl
    | gone => exact parse_other _ (.inr hfile) hparse
    | garbled size => exact parse_other _ (.inr hfile) hparse
    | torn payload =>
      by_cases hsize : payload.length = data.length
      · exact hclash payload hsize (if_pos hsize)
      · exact hchanged (if_neg hsize)

theorem PlainTrue.delete (h : PlainTrue w) (removed : Bool) (id : ObjectId) :
    PlainTrue (plainStep w (.delete removed id)) := by
  show PlainTrue
    { store := Handles.delete removed w.store id
      versions := noteChange w.store.files (Handles.delete removed w.store id).files id.fid w.versions }
  unfold Handles.delete
  by_cases hvalid : id.valid = false
  · rw [if_pos hvalid]
    exact h.same id.fid
  · rw [if_neg hvalid]
    cases parse w.store.files id with
    | error e => exact h.same id.fid
    | ok record =>
      cases removed with
      | false => exact h.same id.fid
      | true =>
        refine PlainTrue.change h (fun k hk => Function.update_of_ne hk _ _) ?_
        intro _ handle e record' _ hfid hparse
        have hgone : Function.update w.store.files id.fid none e.objectId.fid = none := by
          rw [hfid, Function.update_self]
        exact absurd hparse (parse_other 0 (.inl hgone))

theorem PlainTrue.open (h : PlainTrue w) (id : ObjectId) : PlainTrue (plainStep w (.openObject id)) := by
  simp only [plainStep, openObject]
  by_cases hvalid : id.valid = false
  · rw [if_pos hvalid]
    exact h
  · rw [if_neg hvalid]
    cases hparse : parse w.store.files id with
    | error e => exact h
    | ok record =>
      dsimp only
      cases hinsert : HandleTable.insert w.store.handles
          (⟨id, record.generation, record.payload.length⟩ : Entry) with
      | none => exact h
      | some p =>
        obtain ⟨token, handles⟩ := p
        obtain ⟨-, hlookup⟩ := HandleTable.lookup_insert hinsert
        intro handle e hlook record' hrecord hgen hlen
        rw [hlookup] at hlook
        simp only [Versions.opens]
        split_ifs at hlook with htoken
        · rw [← Option.some.inj hlook] at hrecord ⊢
          rw [hparse] at hrecord
          rw [htoken, Function.update_self, Except.ok.inj hrecord]
          exact ⟨rfl, rfl⟩
        · rw [Function.update_of_ne htoken]
          exact h handle e hlook record' hrecord hgen hlen

theorem PlainTrue.close (h : PlainTrue w) (handle : Nat) : PlainTrue (plainStep w (.close handle)) := by
  simp only [plainStep, Handles.close]
  cases hremove : HandleTable.remove w.store.handles handle with
  | none => exact h
  | some handles =>
    intro handle' e hlook
    rw [HandleTable.lookup_remove hremove] at hlook
    split_ifs at hlook
    exact h handle' e hlook

theorem PlainTrue.step (h : PlainTrue w) (i : PlainInput)
    (hfresh : ∀ how id data, i = .put how id data → FreshPut w.store id data) :
    PlainTrue (plainStep w i) := by
  cases i with
  | openObject id => exact h.open id
  | put how id data => exact h.put how (hfresh how id data rfl)
  | delete removed id => exact h.delete removed id
  | read handle offset len => exact h
  | close handle => exact h.close handle

end Plain

section Transactional

variable {ι Tag : Type} [DecidableEq ι] [DecidableEq Tag] {auth : ι → Txn.Authenticator Tag}
  {L : ι → Txn.Layout}

/-- An open handle has the present version of its object, or an older generation. -/
def Dated (auth : ι → Txn.Authenticator Tag) (L : ι → Txn.Layout) (w : TxnWorld ι Tag) (handle : Nat)
    (e : TxnEntry ι) : Prop :=
  ∃ st, Txn.recover (auth e.object) (L e.object) (w.store.files e.object) = .ok st ∧
    e.state.generation ≤ st.generation ∧ (e.state.generation = st.generation →
      st.deleted = false ∧ w.versions.current e.object = (w.versions.opened handle).1 ∧
        Txn.payloadAt (L e.object) (w.store.files e.object) st.recordSlot =
          (w.versions.opened handle).2)

structure TxnTrue (auth : ι → Txn.Authenticator Tag) (L : ι → Txn.Layout) (w : TxnWorld ι Tag) :
    Prop where
  sound : ∀ o, Txn.Sound (auth o) (L o) (CrashProgram.Cache.boot (w.store.files o) ())
  dated : ∀ handle e, HandleTable.lookup w.store.handles handle = some e → Dated auth L w handle e

variable {w : TxnWorld ι Tag}

omit [DecidableEq ι] in
theorem TxnTrue.faithful (h : TxnTrue auth L w) (handle offset len : Nat) :
    Faithful (txnReadAt auth L w.store handle offset len)
      ((HandleTable.lookup w.store.handles handle).map fun e => w.versions.current e.object)
      (w.versions.opened handle) offset len := by
  unfold txnReadAt txnResolve
  cases hlook : HandleTable.lookup w.store.handles handle with
  | none => exact trivial
  | some e =>
    dsimp only [Option.map_some]
    obtain ⟨st, hrec, -, hsame⟩ := h.dated handle e hlook
    rw [hrec]
    dsimp only
    by_cases hstale : st.deleted = true ∨ st.generation ≠ e.state.generation ∨
        st.recordId ≠ e.state.recordId ∨ st.recordSlot ≠ e.state.recordSlot ∨
        st.payloadSize ≠ e.state.payloadSize
    · rw [if_pos hstale]
      exact trivial
    · rw [if_neg hstale]
      simp only [not_or, ne_eq, not_not] at hstale
      obtain ⟨-, hnow, hpayload⟩ := hsame hstale.2.1.symm
      have hsize := Txn.payloadAt_length hrec (Bool.not_eq_true _ ▸ hstale.1)
      rw [hpayload] at hsize
      dsimp only
      rw [hpayload, ← hsize]
      by_cases hlong : (w.versions.opened handle).2.length < offset ∨
          (w.versions.opened handle).2.length - offset < len
      · rw [if_pos hlong]
        exact ⟨congrArg some hnow, if_pos hlong⟩
      · rw [if_neg hlong]
        exact ⟨congrArg some hnow, if_neg hlong⟩

theorem TxnTrue.open (h : TxnTrue auth L w) (o : ι) :
    TxnTrue auth L (txnStep auth L w (.openObject o)) := by
  simp only [txnStep, txnOpen]
  cases hrec : Txn.recover (auth o) (L o) (w.store.files o) with
  | error e => exact h
  | ok st =>
    dsimp only
    by_cases hdeleted : st.deleted = true
    · rw [if_pos hdeleted]
      exact h
    · rw [if_neg hdeleted]
      cases hinsert : HandleTable.insert w.store.handles (⟨o, st⟩ : TxnEntry ι) with
      | none => exact h
      | some p =>
        obtain ⟨token, handles⟩ := p
        obtain ⟨-, hlookup⟩ := HandleTable.lookup_insert hinsert
        refine ⟨h.sound, ?_⟩
        intro handle e hlook
        rw [hlookup] at hlook
        split_ifs at hlook with htoken
        · rw [← Option.some.inj hlook]
          refine ⟨st, hrec, Nat.le_refl _, fun _ => ?_⟩
          simp only [Versions.opens, htoken, Function.update_self, and_self, and_true]
          exact Bool.not_eq_true _ ▸ hdeleted
        · obtain ⟨st', hst', hle, hsame⟩ := h.dated handle e hlook
          refine ⟨st', hst', hle, fun heq => ?_⟩
          simp only [Versions.opens, Function.update_of_ne htoken]
          exact hsame heq

theorem TxnTrue.close (h : TxnTrue auth L w) (handle : Nat) :
    TxnTrue auth L (txnStep auth L w (.close handle)) := by
  simp only [txnStep, txnClose]
  cases hremove : HandleTable.remove w.store.handles handle with
  | none => exact h
  | some handles =>
    refine ⟨h.sound, ?_⟩
    intro handle' e hlook
    rw [HandleTable.lookup_remove hremove] at hlook
    split_ifs at hlook
    exact h.dated handle' e hlook

theorem powerLoss_not_mem (replies : List (Option Bool)) : .powerLoss ∉ replies.map toReply := by
  intro hmem
  obtain ⟨r, -, hr⟩ := List.mem_map.mp hmem
  cases r <;> cases hr

omit [DecidableEq ι] in
theorem txnCall_advances {o : ι} (hsound : Txn.Sound (auth o) (L o)
      (CrashProgram.Cache.boot (w.store.files o) ())) (c : Txn.Call) (replies : List (Option Bool)) :
    Txn.Sound (auth o) (L o) (CrashProgram.Cache.boot (txnCall auth L w.store c o replies).2 ()) ∧
      ((txnCall auth L w.store c o replies).1 ≠ .done () ∧
        Txn.Kept (auth o) (L o) (w.store.files o) (txnCall auth L w.store c o replies).2 ∨
      Txn.Newer (auth o) (L o) (w.store.files o) (txnCall auth L w.store c o replies).2) := by
  have hlost := CrashProgram.perform_ne_lost (p := c.run (auth o) (L o))
    (m := CrashProgram.Cache.boot (w.store.files o) ()) (powerLoss_not_mem replies)
  refine ⟨(hsound.found c (replies.map toReply) (.inr ⟨hlost, rfl⟩)).1, ?_⟩
  have hends := CrashProgram.always_sound (Txn.always_call_advances c hsound) (replies.map toReply)
  unfold txnCall
  generalize perform (c.run (auth o) (L o)) (CrashProgram.Cache.boot (w.store.files o) ())
    (replies.map toReply) = r at hlost hends
  obtain ⟨out, n⟩ := r
  cases out with
  | done a => exact .inr hends
  | fail e => exact hends.imp_left fun hkept => ⟨fun hd => (nomatch hd), hkept⟩
  | lost => exact absurd rfl hlost

theorem TxnTrue.call (h : TxnTrue auth L w) (c : Txn.Call) (o : ι) (replies : List (Option Bool)) :
    TxnTrue auth L (txnStep auth L w (.call c o replies)) := by
  obtain ⟨hsound, hadvance⟩ := txnCall_advances (h.sound o) c replies
  simp only [txnStep]
  generalize txnCall auth L w.store c o replies = r at hsound hadvance
  obtain ⟨out, files⟩ := r
  constructor
  · intro o'
    by_cases ho : o' = o
    · subst ho
      simp only [Function.update_self]
      exact hsound
    · simp only [Function.update_of_ne ho]
      exact h.sound o'
  · intro handle e hlook
    obtain ⟨st, hst, hle, hsame⟩ := h.dated handle e hlook
    by_cases ho : e.object = o
    · subst ho
      rcases hadvance with ⟨hout, hkept, hpayload⟩ | ⟨st', hst', hnewer⟩
      · -- The object is what it was, and no new version was noted.
        rw [if_pos ⟨hout, hkept⟩]
        refine ⟨st, ?_, hle, fun heq => ?_⟩
        · simp only [Function.update_self]
          exact hkept.trans hst
        · obtain ⟨hlive, hnow, hbytes⟩ := hsame heq
          simp only [Function.update_self]
          exact ⟨hlive, hnow, (hpayload st hst hlive).trans hbytes⟩
      · -- Now the handle is behind.
        have hlt := hnewer st hst
        refine ⟨st', ?_, by omega, fun heq => ?_⟩
        · simp only [Function.update_self]
          exact hst'
        · omega
    · refine ⟨st, ?_, hle, fun heq => ?_⟩
      · simp only [Function.update_of_ne ho]
        exact hst
      · obtain ⟨hlive, hnow, hbytes⟩ := hsame heq
        simp only [Function.update_of_ne ho]
        split_ifs
        · exact ⟨hlive, hnow, hbytes⟩
        · simp only [Versions.touch, Function.update_of_ne ho]
          exact ⟨hlive, hnow, hbytes⟩

theorem TxnTrue.step (h : TxnTrue auth L w) (i : TxnInput ι) : TxnTrue auth L (txnStep auth L w i) := by
  cases i with
  | openObject o => exact h.open o
  | call c o replies => exact h.call c o replies
  | read handle offset len => exact h
  | close handle => exact h.close handle

/-- Both stores at once. -/
def AllTrue (auth : ι → Txn.Authenticator Tag) (L : ι → Txn.Layout) (w : World ι Tag) : Prop :=
  PlainTrue w.plain ∧ TxnTrue auth L w.txn

theorem AllTrue.step {w : World ι Tag} (h : AllTrue auth L w) (i : Input ι) (hok : Fresh w i) :
    AllTrue auth L (step auth L w i) ∧ ReadsOpened auth L w i := by
  cases i with
  | plain i =>
    refine ⟨⟨h.1.step i ?_, h.2⟩, ?_⟩
    · rintro how id data rfl
      exact hok
    · cases i with
      | read handle offset len => exact h.1.faithful handle offset len
      | openObject id => exact trivial
      | put how id data => exact trivial
      | delete removed id => exact trivial
      | close handle => exact trivial
  | txn i =>
    refine ⟨⟨h.1, h.2.step i⟩, ?_⟩
    cases i with
    | read handle offset len => exact h.2.faithful handle offset len
    | openObject o => exact trivial
    | call c o replies => exact trivial
    | close handle => exact trivial

omit [DecidableEq ι] in
theorem allTrue_start (files : Files) {m : ι → Txn.TxnCache Tag}
    (hm : ∀ o, Txn.Reached (auth o) (L o) (m o)) :
    AllTrue auth L (start files fun o => (m o).view) := by
  refine ⟨?_, ⟨fun o => (hm o).sound.boot (CrashProgram.Cache.possible_view _), ?_⟩⟩
  · intro handle e hlook
    rw [start, HandleTable.lookup_empty] at hlook
    cases hlook
  · intro handle e hlook
    rw [start, HandleTable.lookup_empty] at hlook
    cases hlook

/-- As long as no put brings back the generation and the size that an open handle remembers, every
read through a handle is a read of the version that it was opened on, or the handle is stale. Of the
transactional objects nothing is asked. -/
theorem stale_handles_stay_stale (auth : ι → Txn.Authenticator Tag) (L : ι → Txn.Layout)
    (files : Files) (m : ι → Txn.TxnCache Tag) (hm : ∀ o, Txn.Reached (auth o) (L o) (m o))
    (is : List (Input ι))
    (hok : StepSystem.Along (step auth L) Fresh (start files fun o => (m o).view) is) :
    StepSystem.Along (step auth L) (ReadsOpened auth L) (start files fun o => (m o).view) is :=
  StepSystem.along_law (P := AllTrue auth L) (fun _ i hi h => h.step i hi) _ is hok
    (allTrue_start files hm)

end Transactional

def sampleId : ObjectId := ⟨1, 1, 0x100⟩

/-- The object is opened, replaced, and read through the old handle and a new one; so is a
transactional one. -/
def replacedRun : List (Input Unit) :=
  [.plain (.put .done sampleId [1]), .plain (.openObject sampleId),
    .plain (.put .done sampleId [2]), .plain (.openObject sampleId),
    .plain (.read 1 0 1), .plain (.read 2 0 1),
    .txn (.call (.put [1]) () []), .txn (.openObject ()), .txn (.call .delete () []),
    .txn (.call (.put [2]) () []), .txn (.openObject ()), .txn (.read 1 0 1), .txn (.read 2 0 1)]

def blankStart : World Unit (List Nat) := start (fun _ => none) fun _ => Txn.emptyCache.view

def sampleStep : World Unit (List Nat) → Input Unit → World Unit (List Nat) :=
  step (fun _ => Txn.sampleAuth) fun _ => Txn.sampleLayout

theorem replaced_run_stale : StepSystem.Along sampleStep
      (ReadsOpened (fun _ => Txn.sampleAuth) fun _ => Txn.sampleLayout) blankStart replacedRun ∧
    readAt (StepSystem.run sampleStep blankStart replacedRun).plain.store 1 0 1 =
      .error .staleHandle ∧
    readAt (StepSystem.run sampleStep blankStart replacedRun).plain.store 2 0 1 = .ok [2] ∧
    txnReadAt (fun _ => Txn.sampleAuth) (fun _ => Txn.sampleLayout)
      (StepSystem.run sampleStep blankStart replacedRun).txn.store 1 0 1 = .error .staleHandle ∧
    txnReadAt (fun _ => Txn.sampleAuth) (fun _ => Txn.sampleLayout)
      (StepSystem.run sampleStep blankStart replacedRun).txn.store 2 0 1 = .ok [2] := by
  refine ⟨?_, by decide +kernel, by decide +kernel, by decide +kernel, by decide +kernel⟩
  apply stale_handles_stay_stale (fun _ => Txn.sampleAuth) (fun _ => Txn.sampleLayout) (fun _ => none)
    fun _ => Txn.emptyCache
  · intro o
    refine .start _ fun s _ c hc => ?_
    rw [hc.of_boot]
  · refine ⟨?_, trivial, ?_, trivial, trivial, trivial, trivial, trivial, trivial, trivial, trivial,
      trivial, trivial, trivial⟩
    · show FreshPut _ _ _
      decide +kernel
    · show FreshPut _ _ _
      decide +kernel

/-- The object is deleted and created anew with contents of the same size: it has generation 1
again, and the old handle reads the new contents. -/
theorem recreated_object_read : ¬ ∀ is : List (Input Unit), StepSystem.Along sampleStep
    (ReadsOpened (fun _ => Txn.sampleAuth) fun _ => Txn.sampleLayout) blankStart is := by
  intro h
  have hread := (h [.plain (.put .done sampleId [1]), .plain (.openObject sampleId),
    .plain (.delete true sampleId), .plain (.put .done sampleId [2]), .plain (.read 1 0 1)]).2.2.2.2.1
  simp only [ReadsOpened] at hread
  revert hread
  decide +kernel

end Handles

end KeyWallet
