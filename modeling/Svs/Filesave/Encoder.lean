import Svs.Model.Filesave

/-!
# The delta encoder as a function

The members `process` works on fall into two groups that never meet: what the content is hashed and
signed with, and what it is encoded with. Each group is a state of its own here, and each method under
`process` a partial function on one of them, `none` where the code throws or leaves its buffers. The
functions write to a sink that is a parameter; `Encoder.put` is the sink the code has, with deflate and
MAIN.DAT abstracted to the bytes handed over.
-/

namespace Svs

open Library

/-! ## Hash and signature -/

/-- The content hasher and the signature in the making. -/
structure Digest where
  fileHash : Bytes
  sigbuf : RingBuffer UInt8
  shash : UInt32
  nsstore : Bytes
  nsstoreLst : Nat

namespace Digest

variable {σ : Type} (env : Env σ)

/-- The entry of a block behind the entries there are. -/
def addEntry (block : Bytes) (d : Digest) : Digest :=
  { d with
    nsstore := ByteFile.overwrite d.nsstore d.nsstoreLst (Filesave.sigentry env d.shash block)
    nsstoreLst := d.nsstoreLst + 40, shash := 0 }

/-- One byte of the signature. -/
def signByte (ch : UInt8) (d : Digest) : Option Digest :=
  (d.sigbuf.push ch).bind fun r =>
    let d := { d with shash := d.shash * Filesave.K + ch.toUInt32, sigbuf := r.2 }
    if r.2.full then
      if d.nsstore.length < d.nsstoreLst + 40 then none
      else some (d.addEntry env r.2.serialize.flatten)
    else some d

/-- The first pass over a buffer. -/
def bytes (noSignature : Bool) (buf : Bytes) (d : Digest) : Option Digest :=
  let d := { d with fileHash := d.fileHash ++ buf }
  if !noSignature then buf.foldlM (fun d ch => signByte env ch d) d else some d

end Digest

/-! ## The delta encoder -/

/-- What an encoder looks up and is set up with. -/
structure Coder where
  encoded : Bool
  find : UInt32 → Bytes → Option Nat
  blocksize : Nat
  dhashmul : UInt32

/-- The encoder's buffers, what it has handed to the sink, and whether the sink is finished. -/
structure Encoder where
  dbuffer : RingBuffer UInt8
  dhashes : RingBuffer UInt32
  dprevcmd : UInt32
  dcurbytes : Nat
  chash : UInt32
  dbuf : Bytes
  stream : Bytes
  closed : Bool

namespace Encoder

/-- `_process`: with zlib an empty buffer finishes the stream, and nothing can follow. -/
def put (zlib : Bool) (buf : Bytes) (e : Encoder) : Option Encoder :=
  if zlib && e.closed && !buf.isEmpty then none
  else some { e with
    stream := e.stream ++ buf, closed := e.closed || (zlib && buf.isEmpty) }

variable (c : Coder) (put : Bytes → Encoder → Option Encoder)

def sendDeltaCommand (cmd : Int) (e : Encoder) : Option Encoder :=
  if c.encoded then
    put (LittleEndian.encode 4 (UInt32.ofInt cmd - e.dprevcmd).toNat)
      { e with dprevcmd := UInt32.ofInt cmd }
  else put (LittleEndian.encodeInt32 cmd) e

def flushDeltaBuffer (e : Encoder) : Option Encoder :=
  if e.dbuf = [] then some e
  else
    (sendDeltaCommand c put (-e.dbuf.length) e).bind fun e' =>
      (put e.dbuf e').bind fun e' => some { e' with dbuf := [] }

def pushDeltaBuffer (ch : UInt8) (e : Encoder) : Option Encoder :=
  (if e.dbuf.length = Filesave.DELTA_BUFFER_SIZE then flushDeltaBuffer c put e else some e).bind
    fun e => some { e with dbuf := e.dbuf ++ [ch] }

def findDeltaHash (hsh : UInt32) (e : Encoder) : Option Encoder :=
  match c.find hsh e.dbuffer.serialize.flatten with
  | none => some e
  | some value =>
    (flushDeltaBuffer c put e).bind fun e =>
      (sendDeltaCommand c put value e).bind fun e => some { e with dcurbytes := 0, chash := 0 }

def deltaByte (ch : UInt8) (e : Encoder) : Option Encoder :=
  (e.dhashes.push (e.chash * Filesave.K + ch.toUInt32)).bind fun h =>
    (e.dbuffer.push ch).bind fun b =>
      let e := { e with
        chash := e.chash * Filesave.K + ch.toUInt32, dhashes := h.2, dbuffer := b.2 }
      if e.dcurbytes < c.blocksize then
        let e := { e with dcurbytes := e.dcurbytes + 1 }
        if e.dcurbytes = c.blocksize then findDeltaHash c put e.chash e else some e
      else
        (pushDeltaBuffer c put b.1 e).bind (findDeltaHash c put (e.chash - h.1 * c.dhashmul))

def deltaBytes (buf : Bytes) (e : Encoder) : Option Encoder :=
  buf.foldlM (fun e ch => deltaByte c put ch e) e

def drainStretch (e : Encoder) (x : Bytes) : Encoder :=
  { e with
    dbuf := e.dbuf ++ x.take (min e.dcurbytes x.length)
    dcurbytes := e.dcurbytes - min e.dcurbytes x.length }

/-- The window at the end of the file, as the code takes it out. -/
def drain (e : Encoder) : Encoder := e.dbuffer.serialize.foldl drainStretch e

/-- The end of the file. -/
def finish (rawFile : Bool) (e : Encoder) : Option Encoder :=
  (if !rawFile then flushDeltaBuffer c put e.drain else some e).bind (put [])

end Encoder

/-! ## `process` -/

/-- What `process` works on. -/
structure Pass where
  digest : Digest
  encoder : Encoder
  bytespassed : Nat

namespace Pass

variable {σ : Type} (env : Env σ) (f : Filesave σ) (put : Bytes → Encoder → Option Encoder)

/-- The encoder an object is set up with. -/
def coder : Coder where
  encoded := f.useZlib
  find hsh window := Filesave.lookup f.signature hsh (env.blake3 window)
  blocksize := f.blocksize
  dhashmul := f.dhashmul

def hashBytes (buf : Bytes) (d : Digest) : Option Digest :=
  if !f.unwind then d.bytes env f.noSignature buf else some d

def storeBytes (buf : Bytes) (e : Encoder) : Option Encoder :=
  if f.rawFile then put buf e else e.deltaBytes (coder env f) put buf

/-- Length check and end of file. -/
def checkEof (passed : Nat) (e : Encoder) : Option Encoder :=
  if f.filesize < passed then none
  else if passed = f.filesize then e.finish (coder env f) put f.rawFile
  else some e

/-- The object is `f` in all that streaming leaves alone. -/
def process (buf : Bytes) (p : Pass) : Option Pass :=
  (hashBytes env f buf p.digest).bind fun d =>
    (storeBytes env f put buf p.encoder).bind fun e =>
      (checkEof env f put (p.bytespassed + buf.length) e).bind fun e =>
        some ⟨d, e, p.bytespassed + buf.length⟩

/-- The object at some point of its pass. -/
def object (p : Pass) : Filesave σ := { f with
  fileHash := p.digest.fileHash, sigbuf := p.digest.sigbuf, shash := p.digest.shash
  nsstore := p.digest.nsstore, nsstoreLst := p.digest.nsstoreLst
  dbuffer := p.encoder.dbuffer, dhashes := p.encoder.dhashes, dprevcmd := p.encoder.dprevcmd
  dcurbytes := p.encoder.dcurbytes, chash := p.encoder.chash, dbuf := p.encoder.dbuf
  filesDeltaSize := f.filesDeltaSize + p.encoder.stream.length, bytespassed := p.bytespassed }

end Pass

end Svs
