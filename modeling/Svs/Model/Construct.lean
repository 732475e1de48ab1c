import Svs.Model.System

/-!
# The constructor of `filesave`

Member initialisation, choice between raw and delta storage, loading of the parent's signature
and reservation of the object in MAIN.DAT, in the order of the source. What the code leaves
uninitialised is taken from the arguments, so that it is arbitrary.
-/

namespace Svs

open Library Library.Program

/-- The arguments of the constructor, the outcome of `prob(rd)`, and what uninitialised memory
holds: the two rings of the delta encoder, the ring of the signature, the header buffers. -/
structure SaveArgs where
  filesize : Nat
  prev : Nat
  psign : Option Bytes
  draw : Bool
  memDbuffer : Nat → UInt8
  memDhashes : Nat → UInt32
  memSigbuf : Nat → UInt8
  stack : Nat → UInt8

namespace Filesave

variable {σ : Type} (env : Env σ)

/-- The member initialiser list and the default member initialisers. Members without one keep what
the memory held. -/
def initMembers (a : SaveArgs) (f : Filesave σ) : Filesave σ :=
  { f with
    dbtOk := false, parent := a.prev, filesize := a.filesize, signature := fun _ => []
    dbuffer := .empty, sigbuf := .empty, dhashes := .empty, dhashmul := 0, dprevcmd := 0
    dcurbytes := 0, chash := 0, shash := 0, bytespassed := 0, rawFile := true
    noSignature := true, useZlib := false, writeSignature := false, filesPid := 0
    unwind := false, nsstore := [], dbuf := [], nsstoreLst := 0 }

/-- The row of the parent, when there is one. -/
def selectParent (a : SaveArgs) : SaveM σ (Option FileRow) :=
  if a.prev = 0 then pure none
  else do
    statement
    let row ← orThrow ((← get).db.tables.fileAt a.prev)
      (.runtime "invalid parent file; check repository integrity")
    modifySelf fun f => { f with filesPid := row.id }
    pure (some row)

/-- Block size, and which of delta, signature and compression the configuration allows. -/
def chooseMode (a : SaveArgs) : SaveM σ Unit := do
  let bsnt := env.lroundSqrt.apply (a.filesize * 4 + 2) + 1
  let tooSmall := a.filesize < bsnt || a.filesize ≤ THRESHOLD_DELTA
  modifySelf fun f => { f with
    bsnt := bsnt, rawFile := tooSmall || a.prev == 0, noSignature := tooSmall
    useZlib := THRESHOLD_ZLIB < a.filesize }
  let zlib ← configBool "zlib"
  when (!zlib) do modifySelf fun f => { f with useZlib := false }
  let raw ← configBool "raw_content"
  when raw do modifySelf fun f => { f with rawFile := true, noSignature := true }
  when (!(← get).self.noSignature) do
    let embed ← configBool "embed_s"
    modifySelf fun f => { f with writeSignature := embed }
  when ((← get).self.writeSignature && a.psign.isSome) do
    let loc ← configBool "local"
    when loc do modifySelf fun f => { f with writeSignature := false }
  when (← get).self.writeSignature do
    modifySelf fun f => { f with bsnt := env.lroundSqrt.apply (a.filesize * 12 + 2) + 1 }

/-- Entry `i` of a signature: weak hash, strong hash, four bytes of padding. -/
def signatureEntry (store : Bytes) (i : Nat) : Option (UInt32 × Filehash) :=
  if h : 40 * i + 36 ≤ store.length then
    some (UInt32.ofNat (LittleEndian.decode (ByteFile.slice store (40 * i) 4)),
      ⟨ByteFile.slice store (40 * i + 4) 32, by simp; omega⟩)
  else none

/-- `signature[ph].emplace_back(fh, i)`. -/
def emplaceBack (table : UInt32 → List Keyvalue) (ph : UInt32) (kv : Keyvalue) :
    UInt32 → List Keyvalue :=
  fun h => if h = ph then table h ++ [kv] else table h

/-- Read `k` entries into the table, then sort every bucket. -/
def readSignature (store : Bytes) (k : Nat) : Option (UInt32 → List Keyvalue) :=
  ((List.range k).foldlM (fun table i =>
    (signatureEntry store i).map fun e => emplaceBack table e.1 ⟨e.2, i⟩) (fun _ => [])).map
      fun table h => env.sort.apply (table h)

/-- The loop that computes `K ^ blocksize`. -/
def hashmul : Nat → UInt32
  | 0 => 1
  | n + 1 => hashmul n * K

/-- Buffers of the delta encoder for the block size found in the parent's signature. -/
def setupDelta (a : SaveArgs) (table : UInt32 → List Keyvalue) (blocksize : Int) : SaveM σ Unit := do
  allocate blocksize
  allocate blocksize
  modifySelf fun f => { f with
    signature := table, blocksize := blocksize.toNat
    dbuffer := f.dbuffer.init a.memDbuffer blocksize.toNat
    dhashes := f.dhashes.init a.memDhashes blocksize.toNat
    chash := 0, dhashmul := hashmul blocksize.toNat }

/-- The parent's signature as passed by the caller. -/
def loadPsign (a : SaveArgs) (psign : Bytes) : SaveM σ Unit := do
  throwIf (psign.length < 8) .undefined
  let sigsize := LittleEndian.decodeInt32 (ByteFile.slice psign 0 4)
  let blocksize := LittleEndian.decodeInt32 (ByteFile.slice psign 4 4)
  let table ← orThrow (readSignature env (psign.drop 8) (sigsize.tdiv 40).toNat) .undefined
  setupDelta a table blocksize

/-- The parent's signature as embedded in its object; without one the file is stored raw. -/
def loadEmbedded (a : SaveArgs) : SaveM σ Unit := do
  setFilePointer a.prev
  let r ← readFile 24
  throwIf (!r.1) .winerror
  let parflags := (r.2 ++ (List.range 24).map a.stack).headD 0
  if hasFlag parflags.toNat .containsSignature then
    throwIf (r.2.length != 24) (.ioerror "error reading file header; check repository integrity")
    let blocksize := LittleEndian.decodeInt32 (ByteFile.slice r.2 20 4)
    let sigsize := LittleEndian.decodeInt32 (ByteFile.slice r.2 16 4)
    allocate sigsize
    let r ← readFile sigsize.toNat
    throwIf (!r.1) .winerror
    throwIf (r.2.length != sigsize.toNat)
      (.ioerror "error reading file signature; check repository integrity")
    let table ← orThrow (readSignature env r.2 (sigsize.tdiv 40).toNat) .undefined
    setupDelta a table blocksize
  else modifySelf fun f => { f with rawFile := true }

/-- The draw between raw and delta, and the delta side's preparation. The scores behind the draw
are floating point; only its outcome matters here. -/
def chooseDelta (a : SaveArgs) (row : FileRow) : SaveM σ Unit := do
  let cnt := row.deltasCount + 1
  let sz := row.deltasSize
  let ssz := row.sourceSize + sz
  let _ ← configRead "delta_prob"
  modifySelf fun f => { f with
    rawFile := !a.draw, filesDeltaCnt := cnt, filesDeltaSize := sz, filesSourceSize := ssz - sz }
  when (← get).self.rawFile do
    let archive ← configBool "archive"
    when archive do modifySelf fun f => { f with rawFile := false }
  when (!(← get).self.rawFile) do
    match a.psign with
    | some psign => loadPsign env a psign
    | none => loadEmbedded env a

/-- `deflateInit`; its return value is not looked at. -/
def deflateInit : SaveM σ Unit := fun s =>
  let zs := if (s.fault 0).isSome then none else some env.zlib.init
  .ok () (s.ticked.withSelf { s.self with zs := zs })

/-- `(int)(filesize / bsnt) * 40` in 32-bit arithmetic. -/
def signatureBytes (filesize bsnt : Nat) : Int :=
  Int.bmod (Int.bmod (filesize / bsnt : Nat) 4294967296 * 40) 4294967296

/-- The zeroed signature buffer with its two leading fields. -/
def newNsstore (sbl : Int) (bsnt : Nat) : Bytes :=
  ByteFile.overwrite (List.replicate (sbl + 8).toNat 0) 0
    (LittleEndian.encodeInt32 sbl ++ LittleEndian.encodeInt32 bsnt)

/-- Make room for the embedded signature, whose size is known. -/
def reserve (dataBegin : Nat) : SaveM σ Unit := do
  setFilePointer dataBegin
  modifySelf fun f => { f with dataBegin := dataBegin }
  setEndOfFile

/-- Header placeholder and signature area at the end of MAIN.DAT. -/
def openObject (a : SaveArgs) : SaveM σ Unit := do
  modify fun s => { s with dat := { s.dat with ptr := s.dat.bytes.length } }
  modify fun s => s.withSelf { s.self with postition := s.dat.ptr, zs := none, fileHash := [] }
  when (← get).self.useZlib do
    deflateInit env
    allocate ZSTREAM_BUFFER_SIZE
  writeAll ((List.range 8).map a.stack ++ LittleEndian.encode 8 a.prev)
    "error writing file header; check free space on disk"
  let bsnt := (← get).self.bsnt
  let sbl := signatureBytes a.filesize bsnt
  when (!(← get).self.noSignature) do
    allocate bsnt
    allocate (sbl + 8)
    throwIf (sbl < 0) .undefined
    modifySelf fun f => { f with
      sigbuf := f.sigbuf.init a.memSigbuf bsnt, nsstore := newNsstore sbl bsnt, nsstoreLst := 8 }
  if (← get).self.writeSignature then
    reserve ((← get).self.postition + 16 + 8 + sbl.toNat)
  else modify fun s => s.withSelf { s.self with dataBegin := s.dat.ptr }

/-- `filesave::filesave`. -/
def filesave (a : SaveArgs) : SaveM σ Unit := do
  beginTransaction
  modifySelf (initMembers a)
  let row ← selectParent a
  chooseMode env a
  match row with
  | none => pure ()
  | some row => when (!(← get).self.rawFile) (chooseDelta env a row)
  openObject env a

end Filesave

end Svs
