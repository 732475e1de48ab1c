import Svs.Model.Construct

/-!
# The methods of `filesave`

`process` and what it calls, `restart`, `commit`, and the destructor, in the order of the source.
Every loop over input bytes is a loop over a list; the two loops whose end is not decided by the
input, the deflate pump and the re-reading of the object, carry a bound that they never reach.
-/

namespace Svs.Filesave

open Library Library.Program

variable {σ : Type} (env : Env σ)

/-! ## Writing the payload -/

/-- The `do … while (zs.avail_out == 0)` loop around `deflate`. -/
def pump (flush : Flush) : Nat → Bytes → SaveM σ Unit
  | 0, _ => throw .diverged
  | fuel + 1, input => do
    let z ← orThrow (← get).self.zs (.runtime "zlib compression error")
    let r := env.zlib.deflate z input ZSTREAM_BUFFER_SIZE flush
    modifySelf fun f => { f with zs := some r.state }
    throwIf (r.ret == .streamError) (.runtime "zlib compression error")
    when (r.out ≠ []) do
      writeAll r.out "error writing compressed file data; check free space on disk"
    when (r.out.length = ZSTREAM_BUFFER_SIZE) do pump flush fuel r.rest

/-- Rounds enough for the pump, by the bound on the output to come. -/
def pumpFuel (s : SaveState σ) (input : Bytes) (flush : Flush) : Nat :=
  match s.self.zs with
  | none => 1
  | some z => env.zlib.budget z input flush + 1

/-- Writes directly to MAIN.DAT; with zlib an empty buffer finishes the stream. -/
def _process (buf : Bytes) : SaveM σ Unit := do
  let s ← get
  if s.self.useZlib then
    let flush := if buf = [] then .finish else .noFlush
    pump env flush (pumpFuel env s buf flush) buf
    modifySelf fun f => { f with filesDeltaSize := f.filesDeltaSize + buf.length }
  else if buf = [] then pure ()
  else
    writeAll buf "error writing file data; check free space on disk"
    modifySelf fun f => { f with filesDeltaSize := f.filesDeltaSize + buf.length }

/-! ## The delta encoder -/

def _send_delta_command (cmd : Int) : SaveM σ Unit := do
  let f := (← get).self
  if f.useZlib then
    let ucmd := UInt32.ofInt cmd
    let xcmd := ucmd - f.dprevcmd
    modifySelf fun f => { f with dprevcmd := ucmd }
    _process env (LittleEndian.encode 4 xcmd.toNat)
  else _process env (LittleEndian.encodeInt32 cmd)

def _flush_delta_buffer : SaveM σ Unit := do
  let dbuf := (← get).self.dbuf
  if dbuf = [] then pure ()
  else
    _send_delta_command env (-dbuf.length)
    _process env dbuf
    modifySelf fun f => { f with dbuf := [] }

def _push_delta_buffer (ch : UInt8) : SaveM σ Unit := do
  when ((← get).self.dbuf.length = DELTA_BUFFER_SIZE) do _flush_delta_buffer env
  modifySelf fun f => { f with dbuf := f.dbuf ++ [ch] }

/-- `std::lower_bound` on a sorted bucket. -/
def lowerBound (vars : List Keyvalue) (fh : Filehash) : Option Keyvalue :=
  vars.find? fun kv => !decide (kv.key.lt fh)

/-- The entry of the signature that both hashes of the window select. -/
def lookup (signature : UInt32 → List Keyvalue) (hsh : UInt32) (fh : Filehash) : Option Nat :=
  match lowerBound (signature hsh) fh with
  | none => none
  | some kv => if kv.key = fh then some kv.value else none

def _find_delta_hash (hsh : UInt32) : SaveM σ Unit := do
  let f := (← get).self
  match lookup f.signature hsh (env.blake3 f.dbuffer.serialize.flatten) with
  | none => pure ()
  | some value =>
    _flush_delta_buffer env
    _send_delta_command env value
    modifySelf fun f => { f with dcurbytes := 0, chash := 0 }

/-- One byte of the delta branch of `process`. -/
def deltaByte (ch : UInt8) : SaveM σ Unit := do
  modifySelf fun f => { f with chash := f.chash * K + ch.toUInt32 }
  let f := (← get).self
  let (phsh, dhashes) ← orThrow (f.dhashes.push f.chash) .undefined
  let (old, dbuffer) ← orThrow (f.dbuffer.push ch) .undefined
  modifySelf fun f => { f with dhashes := dhashes, dbuffer := dbuffer }
  if f.dcurbytes < f.blocksize then
    modifySelf fun f => { f with dcurbytes := f.dcurbytes + 1 }
    when (f.dcurbytes + 1 = f.blocksize) do _find_delta_hash env f.chash
  else
    _push_delta_buffer env old
    _find_delta_hash env (f.chash - phsh * f.dhashmul)

/-- The callback of `dbuffer.serialize` at the end of the file. -/
def drainStretch (f : Filesave σ) (x : Bytes) : Filesave σ :=
  { f with
    dbuf := f.dbuf ++ x.take (min f.dcurbytes x.length)
    dcurbytes := f.dcurbytes - min f.dcurbytes x.length }

/-! ## `process` -/

/-- One entry of the signature: weak hash, strong hash, padding. -/
def sigentry (shash : UInt32) (block : Bytes) : Bytes :=
  LittleEndian.encode 4 shash.toNat ++ (env.blake3 block).raw ++ List.replicate 4 0

/-- One byte of the signature. -/
def signByte (ch : UInt8) : SaveM σ Unit := do
  let f := (← get).self
  let (_, sigbuf) ← orThrow (f.sigbuf.push ch) .undefined
  modifySelf fun f => { f with shash := f.shash * K + ch.toUInt32, sigbuf := sigbuf }
  when sigbuf.full do
    let f := (← get).self
    throwIf (f.nsstore.length < f.nsstoreLst + 40) .undefined
    let entry := sigentry env f.shash sigbuf.serialize.flatten
    modifySelf fun f => { f with
      nsstore := ByteFile.overwrite f.nsstore f.nsstoreLst entry
      nsstoreLst := f.nsstoreLst + 40, shash := 0 }

/-- First pass over the file: content hash and signature. -/
def hashBytes (buf : Bytes) : SaveM σ Unit := do
  when (!(← get).self.unwind) do
    modifySelf fun f => { f with fileHash := f.fileHash ++ buf }
    when (!(← get).self.noSignature) do each (signByte env) buf

/-- The payload, raw or delta. -/
def storeBytes (buf : Bytes) : SaveM σ Unit := do
  if (← get).self.rawFile then _process env buf else each (deltaByte env) buf

/-- Length check and end of file. -/
def checkEof (buf : Bytes) : SaveM σ Unit := do
  modifySelf fun f => { f with bytespassed := f.bytespassed + buf.length }
  let f := (← get).self
  throwIf (f.filesize < f.bytespassed) (.runtime "Too much bytes recieved than file size")
  when (f.bytespassed = f.filesize) do
    when (!f.rawFile) do
      modifySelf fun f => f.dbuffer.serialize.foldl drainStretch f
      _flush_delta_buffer env
    _process env []

def process (buf : Bytes) : SaveM σ Unit := do
  hashBytes env buf
  storeBytes env buf
  checkEof env buf

/-! ## `restart` and `commit` -/

def need_restart (f : Filesave σ) : Bool :=
  !f.rawFile && (decide ((f.filesize : Int) ≤ f.filesDeltaSize) ||
    decide (3 * (f.filesize : Int) ≤ f.filesDeltaSize + f.filesSourceSize))

def restart : SaveM σ Unit := do
  throwIf (!need_restart (← get).self)
    (.runtime "Restart not supported on current configuration")
  modifySelf fun f => { f with rawFile := true, unwind := true }
  when (← get).self.useZlib do
    modifySelf fun f => { f with zs := none }
    deflateInit env
  modifySelf fun f => { f with bytespassed := 0 }
  setFilePointer (← get).self.dataBegin
  setEndOfFile

/-- The loop that reads the object back to hash it. -/
def reread : Nat → SaveM σ Unit
  | 0 => throw .diverged
  | fuel + 1 => do
    let r ← readFile ZSTREAM_BUFFER_SIZE
    throwIf (!r.1) .winerror
    modifySelf fun f => { f with fileHash := f.fileHash ++ r.2 }
    if r.2 = [] then pure () else reread fuel

/-- The clock as `commit` reads it. -/
structure Clock where
  systemTime : Int
  time : Int

/-- The object bits written by `commit`. -/
def commitFlags (f : Filesave σ) : Nat := objectFlags f.rawFile f.useZlib f.writeSignature

/-- `flags + (objsize << 8)`, as the eight bytes of a `long long`. -/
def headerBytes (flags : Nat) (objsize : Int) : Bytes :=
  LittleEndian.encode 8 ((flags + objsize * 256) % 18446744073709551616).toNat

/-- Cut the file behind the payload and give the stream back. -/
def closePayload : SaveM σ Unit := do
  throwIf ((← get).self.bytespassed < (← get).self.filesize)
    (.runtime "Not enough bytes recieved to file size")
  setEndOfFile
  when (← get).self.useZlib do modifySelf fun f => { f with zs := none }

/-- Back-patch header and signature, and flush. -/
def patchObject (f : Filesave σ) (objsize : Int) : SaveM σ Unit := do
  setFilePointer f.postition
  let r ← writeFile (headerBytes (commitFlags f) objsize)
  throwIf (!r.1) .winerror
  when f.writeSignature do
    setFilePointer ((← get).dat.ptr + 8)
    writeAll (f.nsstore.take f.nsstoreLst) "Error writing signature to data file"
  flushFileBuffers

/-- Hash the object as it stands in MAIN.DAT. -/
def hashObject (postition : Nat) : SaveM σ Filehash := do
  setFilePointer postition
  modifySelf fun f => { f with fileHash := [] }
  allocate ZSTREAM_BUFFER_SIZE
  reread ((← get).dat.bytes.length + 1)
  pure (env.blake3 (← get).self.fileHash)

/-- The file half of `commit`. Returns the new file size, the object's size, flags and hash, and
the hash of the content. -/
def commitObject : SaveM σ (Nat × Int × Nat × Filehash × Filehash) := do
  closePayload
  let s ← get
  let f := s.self
  let tarsize := s.dat.ptr
  let objsize : Int := tarsize - f.postition
  patchObject f objsize
  when f.rawFile do modifySelf fun f => { f with
    filesDeltaCnt := 0, filesDeltaSize := 0, filesSourceSize := f.filesize }
  let filehsh := env.blake3 f.fileHash
  let ohsh ← hashObject env f.postition
  pure (tarsize, objsize, commitFlags f, ohsh, filehsh)

/-- The database half of `commit`. -/
def commitRows (moddate : Option Int) (clock : Clock) (tarsize : Nat) (objsize : Int)
    (flags : Nat) (ohsh filehsh : Filehash) : SaveM σ Unit := do
  let f := (← get).self
  statement
  let (tables, sid) ← orThrow
    ((← get).db.tables.insertObject f.postition objsize ohsh flags)
    (.sqlError "UNIQUE constraint failed: objects.offset")
  setTables tables
  statement
  let row : FileRow := {
    id := sid, object := f.postition, fileSize := f.filesize, fileHash := filehsh
    modifiedDate := moddate.getD clock.systemTime, updatedAt := clock.time
    deltasSize := f.filesDeltaSize, deltasCount := f.filesDeltaCnt
    sourceSize := f.filesSourceSize, parent := f.filesPid }
  let tables ← orThrow ((← get).db.tables.insertFile row)
    (.sqlError "UNIQUE constraint failed: files.object")
  setTables tables
  statement
  setTables ((← get).db.tables.updateConfig "filesize" (.integer tarsize))
  commitTransaction

def commit (moddate : Option Int) (clock : Clock) : SaveM σ Nat := do
  let (tarsize, objsize, flags, ohsh, filehsh) ← commitObject env
  commitRows moddate clock tarsize objsize flags ohsh filehsh
  pure (← get).self.postition

end Svs.Filesave
