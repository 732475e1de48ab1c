import Svs.Repository.Chains
import Svs.Repository.Contents

/-!
# Reading contents back

A content can be read back through the chain of its parents: the stream of its object is the content
itself, or commands to be carried out on the content of the parent. Whether that undoes what the saves
did is settled by what each delta drained at the end of its file.
-/

namespace Svs

open Library Library.Program

variable {σ : Type} {env : Env σ}

/-! ## A reader -/

namespace Repository

def objectAt (r : Repository) (offset : Nat) : Option ObjectRow :=
  r.tables.objects.find? fun o => o.offset == (offset : Int)

/-- What a reader makes of the object at `offset`: `whole` of a content that is stored whole, `delta` of
a delta and of what it has made of the parent. -/
def follow {α : Type} (env : Env σ) (whole : Bytes → α) (delta : Nat → Bool → Bytes → α → Option α)
    (r : Repository) (offset : Nat) : Option α :=
  (r.objectAt offset).bind fun o => (o.stream env r.dat.bytes).bind fun stream =>
    let prev := LittleEndian.decode (ByteFile.slice r.dat.bytes (offset + 8) 8)
    if hasFlag (o.flags r.dat.bytes) .contentDelta then
      if prev < offset then (follow env whole delta r prev).bind
        (delta offset (hasFlag (o.flags r.dat.bytes) .contentDeltaEncoded) stream)
      else none
    else some (whole stream)
termination_by offset

/-- The content of the object at `offset`. The length of the blocks that a delta copies is with the
signature it was made for, which need not be in MAIN.DAT. -/
def decode (env : Env σ) (blocksize : Nat → Nat) (r : Repository) (offset : Nat) : Option Bytes :=
  r.follow env id (fun offset encoded stream parent =>
    (parse encoded 0 stream).map (expand parent (blocksize offset))) offset

end Repository

/-! ## One save -/

namespace Filesave

variable {a : SaveArgs} {s₀ s t : SaveState σ} {parent : Bytes} {blocksize : Nat}

/-- A delta save has found the row of its parent. -/
theorem Opened.delta_parent (h : Opened env a s₀ s) (hraw : s.self.rawFile = false) :
    ∃ p ∈ s₀.db.tables.files, p.object = a.prev ∧ DeltaOpened env a p s₀.dat.bytes s.self := by
  obtain ⟨row, hrow, hparent⟩ := h.parent
  obtain ⟨p, rfl, hd⟩ := hparent hraw
  obtain ⟨-, hat, -⟩ := hrow
  exact ⟨p, List.mem_of_find?_eq_some hat, by simpa using List.find?_some hat, hd⟩

/-- Commands that are carried out on the parent make the content exactly if the window drains
right. -/
theorem delta_decodes {bufs : List Bytes} (h : Opened env a s₀ s) (hraw : s.self.rawFile = false)
    (hgiven : GivenSignature env parent blocksize a s₀.dat.bytes)
    (hcontent : bufs.flatten.length = a.filesize)
    (hblake : TellsApart env blocksize parent bufs.flatten)
    (ht : each (process env) bufs s = .ok () t) : s.self.blocksize = blocksize ∧
      ∃ cmds, parse s.self.useZlib 0 (emitted env t) = some cmds ∧
        (expand parent blocksize cmds = bufs.flatten ↔
          DrainsRight blocksize parent ((List.range blocksize).map a.memDbuffer) bufs.flatten) := by
  obtain ⟨_, -, -, hd⟩ := h.delta_parent hraw
  have hcommands := hgiven.commands
  have hentries := hgiven.entries
  obtain ⟨hknows, -⟩ := hd.knows hentries (by unfold DELTA_BUFFER_SIZE at hcommands; omega)
    hgiven.source
  obtain rfl : s.self.blocksize = blocksize := hknows.blocksize
  obtain ⟨-, e, he, hemitted⟩ := h.delta_run hraw hcontent ht
  have hstart : Encoder.Tracked (Pass.coder env s.self) parent _ _ [] s.self.pass.encoder :=
    .start (h.tracks hraw hgiven.pos parent) h.fresh.dcurbytes
  obtain ⟨q, hq, htracked⟩ := Encoder.deltaBytes_keeps hstart fun w e ch hw hin =>
    hw.step (by simp; rfl) (by simp; rfl) hd.dhashmul (hknows.finds hblake) hin
  cases (hq _).symm.trans he
  obtain ⟨cmds, hparse, hexpand⟩ := htracked.finished
    (by show _ / s.self.blocksize ≤ _; omega) (by show _ + s.self.blocksize ≤ _; omega) s.self.useZlib
  rw [hemitted]
  exact ⟨rfl, cmds, hparse, hexpand⟩

end Filesave

/-- MAIN.DAT has the signature of `w` behind the header of the object at `offset`. -/
structure Embeds (env : Env σ) (w : Bytes) (b : Nat) (dat : Bytes) (offset : Nat) : Prop where
  pos : 1 ≤ b
  entries : 40 * (w.length / b) < 2147483648
  commands : Filesave.DELTA_BUFFER_SIZE + b ≤ 2147483648
  inside : offset + 24 + 40 * (w.length / b) ≤ dat.length
  embedded : ByteFile.slice dat (offset + 16) (8 + 40 * (w.length / b)) = signatureOf env b w

namespace Embeds

variable {w dat dat' : Bytes} {b offset : Nat} (h : Embeds env w b dat offset)

include h

theorem of_keeps (hk : ByteFile.Keeps dat.length dat dat') : Embeds env w b dat' offset := by
  have hinside := h.inside
  refine ⟨h.pos, h.entries, h.commands, hinside.trans hk.1, ?_⟩
  rw [ByteFile.slice_of_take hk.2 (by omega), h.embedded]

theorem given {a : SaveArgs} (hprev : a.prev = offset) (hnone : a.psign = none) :
    Filesave.GivenSignature env w b a dat :=
  ⟨h.pos, h.entries, h.commands, .inr ⟨hnone, by rw [hprev, h.embedded]⟩⟩

end Embeds

/-- A client that hands over `content` of every object, and opens deltas with the parent's signature.
What is ghostly here is `blocksize`: the length of the blocks of the delta at an offset. -/
structure Offered (env : Env σ) (content : Nat → Bytes) (blocksize : Nat → Nat) (r : Repository)
    (v : Save σ) (s t : SaveState σ) : Prop where
  hands : Hands env v.calls (content r.dat.bytes.length) s t
  length : (content r.dat.bytes.length).length = v.args.filesize
  blocks : t.self.rawFile = false → blocksize r.dat.bytes.length = s.self.blocksize
  psign : t.self.rawFile = false → v.args.psign ≠ none → Filesave.GivenSignature env
    (content v.args.prev) (blocksize r.dat.bytes.length) v.args r.dat.bytes

/-- It does, and BLAKE3 tells what the delta is matched with apart. -/
structure Supplied (env : Env σ) (content : Nat → Bytes) (blocksize : Nat → Nat) (r : Repository)
    (v : Save σ) (s t : SaveState σ) : Prop extends Offered env content blocksize r v s t where
  apart : t.self.rawFile = false → Filesave.TellsApart env
    (blocksize r.dat.bytes.length) (content v.args.prev) (content r.dat.bytes.length)

/-- If the save leaves a delta, its window drains right. -/
def Drained (content : Nat → Bytes) (blocksize : Nat → Nat) (r : Repository) (v : Save σ)
    (t : SaveState σ) : Prop :=
  t.self.rawFile = false → DrainsRight (blocksize r.dat.bytes.length) (content v.args.prev)
    ((List.range (blocksize r.dat.bytes.length)).map v.args.memDbuffer)
    (content r.dat.bytes.length)

def Repository.HasFile (r : Repository) (offset : Nat) : Prop :=
  ∃ row ∈ r.tables.files, row.object = offset

/-- The object `o` at `offset`: its stream is the content, or commands that make it from the content
of an earlier file exactly if `ok`. -/
structure Decodable (env : Env σ) (content : Nat → Bytes) (blocksize : Nat → Nat) (r : Repository)
    (offset : Nat) (o : ObjectRow) (ok : Prop) : Prop where
  found : r.objectAt offset = some o
  inside : o.Inside r.dat.bytes
  signature : hasFlag (o.flags r.dat.bytes) .containsSignature = true →
    ∃ b, Embeds env (content offset) b r.dat.bytes offset
  stream : ∃ stream, o.stream env r.dat.bytes = some stream ∧
    if hasFlag (o.flags r.dat.bytes) .contentDelta then
      ∃ prev cmds, r.HasFile prev ∧ prev < offset ∧
        ByteFile.slice r.dat.bytes (offset + 8) 8 = LittleEndian.encode 8 prev ∧
        parse (hasFlag (o.flags r.dat.bytes) .contentDeltaEncoded) 0 stream = some cmds ∧
        (expand (content prev) (blocksize offset) cmds = content offset ↔ ok)
    else stream = content offset ∧ ok

namespace Repository

variable {r r' : Repository} {offset : Nat} {o : ObjectRow} {content : Nat → Bytes}
  {blocksize : Nat → Nat} {ok : Prop}

theorem objectAt_eq (h : r.objectAt offset = some o) : o ∈ r.tables.objects ∧ o.offset = offset :=
  ⟨List.mem_of_find?_eq_some h, by simpa using List.find?_some h⟩

theorem Extends.objectAt_eq (hext : r.Extends r') (h : r.objectAt offset = some o) :
    r'.objectAt offset = some o := by
  obtain ⟨more, hmore⟩ := hext.objects
  unfold objectAt at h ⊢
  rw [← hmore, List.find?_append, h]
  rfl

end Repository

namespace Decodable

variable {r r' : Repository} {offset : Nat} {o : ObjectRow} {content : Nat → Bytes}
  {blocksize : Nat → Nat} {ok : Prop} (h : Decodable env content blocksize r offset o ok)

include h

/-- What comes behind the object does not matter. -/
theorem keep (hext : r.Extends r') (hfiles : r.tables.files ⊆ r'.tables.files) :
    Decodable env content blocksize r' offset o ok := by
  have hbegin := o.payloadBegin_ge r.dat.bytes
  have hheader := h.inside.header
  have hoffset := (Repository.objectAt_eq h.found).2
  refine ⟨hext.objectAt_eq h.found, h.inside.keep hext.dat, fun hs => ?_, ?_⟩
  · rw [h.inside.flags_eq hext.dat] at hs
    obtain ⟨b, hb⟩ := h.signature hs
    exact ⟨b, hb.of_keeps hext.dat⟩
  · rw [h.inside.stream_eq hext.dat, h.inside.flags_eq hext.dat,
      ByteFile.slice_of_take hext.dat.2 (by omega)]
    obtain ⟨stream, hstream, hkind⟩ := h.stream
    refine ⟨stream, hstream, ?_⟩
    split at hkind <;> rename_i hdelta
    · obtain ⟨prev, cmds, ⟨row, hrow, hprev⟩, hrest⟩ := hkind
      rw [if_pos hdelta]
      exact ⟨prev, cmds, ⟨row, hfiles hrow, hprev⟩, hrest⟩
    · rwa [if_neg hdelta]

/-- With all contents before it read back, the content is read back exactly if `ok`. -/
theorem decode_iff (hbefore : ∀ prev < offset, r.HasFile prev → prev < 18446744073709551616 ∧
    r.decode env blocksize prev = some (content prev)) :
    r.decode env blocksize offset = some (content offset) ↔ ok := by
  obtain ⟨stream, hstream, hkind⟩ := h.stream
  unfold Repository.decode at hbefore ⊢
  rw [Repository.follow, h.found, Option.bind_some, hstream, Option.bind_some]
  dsimp only
  split at hkind <;> rename_i hdelta
  · obtain ⟨prev, cmds, hfile, hlt, hprev, hparse, hok⟩ := hkind
    obtain ⟨hfits, hread⟩ := hbefore prev hlt hfile
    rw [if_pos hdelta, hprev, LittleEndian.decode_encode_of_lt hfits, if_pos hlt, hread,
      Option.bind_some, hparse, Option.map_some, Option.some_inj, hok]
  · rw [if_neg hdelta, Option.some_inj]
    exact ⟨fun _ => hkind.2, fun _ => hkind.1⟩

end Decodable

/-! ## One commit -/

section

variable {r : Repository} {v : Save σ} {s t u : SaveState σ} {o : ObjectRow}

/-- The calls decide where a save commits. -/
theorem Commits.unique {s' t' u' : SaveState σ} (h : Commits env r v s t u)
    (h' : Commits env r v s' t' u') : s = s' ∧ t = t' ∧ u = u' := by
  obtain ⟨hs, ht, _, hu⟩ := h
  obtain ⟨hs', ht', _, hu'⟩ := h'
  cases hs.symm.trans hs'
  cases ht.symm.trans ht'
  cases hu.symm.trans hu'
  exact ⟨rfl, rfl, rfl⟩

/-- The first file is stored whole. -/
theorem Commits.first_raw {codepage time : Int}
    (hc : Commits env (SVS.create codepage time) v s t u) : s.self.rawFile = true := by
  by_contra h
  obtain ⟨_, hp, -⟩ := hc.underway.opened.delta_parent (by simpa using h)
  cases hp

/-- The rows that a commit adds, and what stands in MAIN.DAT at the object. -/
theorem Landed.added (hc : Landed env r v s t u) : ∃ object file,
    u.close.tables.files = r.tables.files ++ [file] ∧
      file = ⟨object.id, object.offset, v.args.filesize, env.blake3 t.self.fileHash,
        v.moddate.getD v.clock.systemTime, v.clock.time,
        if t.self.rawFile then 0 else t.self.filesDeltaSize,
        if t.self.rawFile then 0 else t.self.filesDeltaCnt,
        if t.self.rawFile then v.args.filesize else t.self.filesSourceSize, t.self.filesPid⟩ ∧
      u.close.objectAt r.dat.bytes.length = some object ∧ object.offset = r.dat.bytes.length ∧
      object.size = (u.dat.bytes.length : Int) - r.dat.bytes.length ∧
      object.flags u.close.dat.bytes =
        objectFlags t.self.rawFile t.self.useZlib t.self.writeSignature := by
  obtain ⟨object, file, hobject, hfile, hclose, hnew, -⟩ := hc.saved.close_eq
  have hobjects : u.close.tables.objects = r.tables.objects ++ [object] := by rw [hclose]; rfl
  have hoffset : object.offset = r.dat.bytes.length := by rw [hobject]
  refine ⟨object, file, by rw [hclose]; rfl, hfile, ?_, hoffset, by rw [hobject],
    hc.saved.flags_eq hoffset⟩
  unfold Repository.objectAt
  rw [hobjects, List.find?_append, List.find?_eq_none.mpr fun o ho => ?_]
  · simp [hoffset]
  · simpa [hoffset] using hnew o ho

/-- A reader gets what the pass has made of the content. -/
theorem Landed.stream_of_mirrors {f : Filesave σ} {q : Pass} (hc : Landed env r v s t u)
    (hoffset : o.offset = r.dat.bytes.length)
    (hsize : o.size = (u.dat.bytes.length : Int) - r.dat.bytes.length)
    (hm : Mirrors env f s.dat t q) (hclosed : f.useZlib = true → q.encoder.closed = true) :
    o.stream env u.dat.bytes = some q.encoder.stream := by
  have h := hc.saved
  have hbegin : t.self.dataBegin = s.self.dataBegin := h.endures.dataBegin
  have hzlib : t.self.useZlib = f.useZlib := by
    rw [hm.self]
    rfl
  rw [(hc.stream_eq hoffset hsize).2, hbegin, hzlib]
  split
  · rename_i hz
    obtain ⟨z, -, hdat, htaken, -, hfinished⟩ := hm.zlib hz
    rw [h.opened.tail hdat, env.zlib.inflate_produced z (hfinished (hclosed hz)), htaken]
  · rename_i hz
    rw [h.opened.tail (hm.plain (by simpa using hz))]

/-- The embedded signature of a save that has been handed `w` is the one of `w`. -/
theorem Saved.embeds {w : Bytes} (h : Saved env r v s t u) (hw : t.self.writeSignature = true)
    (hlen : w.length = v.args.filesize) (hfit : 40 * (v.args.filesize / s.self.bsnt) < 2147483648)
    (hsig : Filesave.HasSignature env w t.self) :
    Embeds env w t.self.bsnt u.dat.bytes r.dat.bytes.length := by
  have hbsnt : t.self.bsnt = s.self.bsnt :=
    Filesave.of_fixed h.endures.fixed Filesave.bsnt fun _ => rfl
  have hsmall : t.self.bsnt < 1073741824 := by
    rw [h.opened.bsnt] at hfit
    rw [hbsnt, h.opened.bsnt]
    exact Filesave.chosenBsnt_lt hfit
  have hin := h.signature_le hw
  have hslice := h.signature hw
  rw [← hsig.reserved, List.take_length] at hslice
  have hused := hsig.used
  have hreserved := hsig.reserved
  refine ⟨?_, by rwa [hlen, hbsnt], by unfold Filesave.DELTA_BUFFER_SIZE; omega, by omega, ?_⟩
  · rw [hbsnt, h.opened.bsnt]
    exact Nat.le_add_left 1 _
  · rw [← hused, ← hreserved, hslice, hsig.nsstore]

/-- The signature a delta save is given, or finds, is the one of its parent's content. -/
theorem Supplied.given {content : Nat → Bytes} {blocksize : Nat → Nat}
    (h : Supplied env content blocksize r v s t) (hsaved : Saved env r v s t u)
    (hraw : t.self.rawFile = false) (hopen : s.self.rawFile = false)
    (hparent : hasFlag (r.dat.bytes.getD v.args.prev 0).toNat .containsSignature = true →
      ∃ b, Embeds env (content v.args.prev) b r.dat.bytes v.args.prev) :
    Filesave.GivenSignature env (content v.args.prev) (blocksize r.dat.bytes.length) v.args
      r.dat.bytes := by
  cases hpsign : v.args.psign with
  | some sign => exact h.psign hraw (by simp [hpsign])
  | none =>
    obtain ⟨_, -, -, hd⟩ := hsaved.opened.delta_parent hopen
    obtain ⟨store, k, size, hloaded, -⟩ := hd.loaded
    unfold Filesave.ParentSignature at hloaded
    rw [hpsign] at hloaded
    obtain ⟨_, hflag, -⟩ := hloaded
    obtain ⟨b, hb⟩ := hparent hflag
    have hgiven := hb.given rfl hpsign
    have hcommands := hb.commands
    obtain ⟨hknows, -⟩ := hd.knows hb.entries
      (by unfold Filesave.DELTA_BUFFER_SIZE at hcommands; omega) hgiven.source
    obtain rfl : blocksize r.dat.bytes.length = b := (h.blocks hraw).trans hknows.blocksize
    exact hgiven

/-- A commit leaves a content that can be read back, if a delta drains right. -/
theorem Supplied.decodable {content : Nat → Bytes} {blocksize : Nat → Nat}
    (h : Supplied env content blocksize r v s t) (hc : Landed env r v s t u)
    (hfiles : ∀ p ∈ r.tables.files, ∃ n : Nat, p.object = n ∧ n < r.dat.bytes.length ∧
      (hasFlag (r.dat.bytes.getD n 0).toNat .containsSignature = true →
        ∃ b, Embeds env (content n) b r.dat.bytes n)) :
    ∃ o, Decodable env content blocksize u.close r.dat.bytes.length o
      (Drained content blocksize r v t) := by
  have hsaved := hc.saved
  obtain ⟨object, file, hadded, -, hfound, hoffset, hsize, hflags⟩ := hc.added
  have hkept : r.tables.files ⊆ u.close.tables.files := hadded ▸ List.subset_append_left _ _
  obtain ⟨hdelta, -, hsign, hencoded⟩ :=
    hasFlag_objectFlags t.self.rawFile t.self.useZlib t.self.writeSignature
  refine ⟨object, hfound, (hc.stream_eq hoffset hsize).1, fun hs => ?_, ?_⟩
  · have hw : t.self.writeSignature = true := by rwa [hflags, hsign] at hs
    have hopenw : s.self.writeSignature = true :=
      (Filesave.of_fixed hsaved.endures.fixed Filesave.writeSignature fun _ => rfl).symm.trans hw
    obtain ⟨hfit, hsig⟩ := h.hands.signature hsaved.opened h.length
      (hsaved.opened.modes.writeSignature hopenw)
    exact ⟨_, hsaved.embeds hw h.length hfit hsig⟩
  · rw [hflags, hdelta, hencoded]
    cases hraw : t.self.rawFile with
    | true =>
      obtain ⟨f, q, hm, hclosed, hstream⟩ := h.hands.raw hsaved.opened h.length hraw
      refine ⟨_, hc.stream_of_mirrors hoffset hsize hm hclosed, ?_⟩
      rw [if_neg (by simp)]
      exact ⟨hstream, fun hfalse => (by cases hraw.symm.trans hfalse)⟩
    | false =>
      obtain ⟨hopen, bufs, q, hw, ht, hm, hclosed⟩ := h.hands.delta hsaved.opened h.length hraw
      obtain ⟨p, hmem, hp, -⟩ := hsaved.opened.delta_parent hopen
      obtain ⟨n, hn, hlt, hembeds⟩ := hfiles p hmem
      obtain rfl : n = v.args.prev := by omega
      have hgiven := h.given hsaved hraw hopen hembeds
      obtain ⟨hblock, cmds, hparse, hexpand⟩ := Filesave.delta_decodes hsaved.opened hopen hgiven
        (by rw [hw, h.length]) (by rw [hw]; exact h.apart hraw) ht
      have hzlib : t.self.useZlib = s.self.useZlib := by
        rw [hm.self]
        rfl
      refine ⟨_, hc.stream_of_mirrors hoffset hsize hm fun hz => hclosed.trans hz, ?_⟩
      rw [if_pos (by simp)]
      refine ⟨v.args.prev, cmds, ⟨p, hkept hmem, hp⟩, hlt, hsaved.parent, ?_, ?_⟩
      · rw [← hm.emitted hsaved.opened, hzlib]
        simpa using hparse
      · rw [hw] at hexpand
        exact hexpand.trans ⟨fun hd _ => hd, fun hd => hd hraw⟩

end

/-! ## All commits -/

/-- Each entry is the offset of a commit, and what has to hold for its content to be read back. The
files are the ones that were committed. -/
structure Catalogue (env : Env σ) (content : Nat → Bytes) (blocksize : Nat → Nat)
    (entries : List (Nat × Prop)) (r : Repository) : Prop where
  committed : ∀ e ∈ entries, r.HasFile e.1 ∧
    ∃ o, Decodable env content blocksize r e.1 o e.2
  files : ∀ row ∈ r.tables.files, ∃ e ∈ entries, row.object = e.1

namespace Catalogue

variable {content : Nat → Bytes} {blocksize : Nat → Nat} {entries : List (Nat × Prop)}
  {r r' : Repository} (h : Catalogue env content blocksize entries r)

include h

theorem keep (hext : r.Extends r') (hfiles : r'.tables.files = r.tables.files) :
    Catalogue env content blocksize entries r' := by
  refine ⟨fun e he => ?_, fun row hrow => h.files row (hfiles ▸ hrow)⟩
  obtain ⟨⟨row, hrow, hoffset⟩, o, ho⟩ := h.committed e he
  exact ⟨⟨row, hfiles ▸ hrow, hoffset⟩, o, ho.keep hext (hfiles ▸ List.Subset.refl _)⟩

/-- The file rows that a save finds are where their contents and signatures are. -/
theorem parents : ∀ p ∈ r.tables.files, ∃ n : Nat, p.object = n ∧ n < r.dat.bytes.length ∧
    (hasFlag (r.dat.bytes.getD n 0).toNat .containsSignature = true →
      ∃ b, Embeds env (content n) b r.dat.bytes n) := by
  intro p hp
  obtain ⟨e, he, hoffset⟩ := h.files p hp
  obtain ⟨-, o, ho⟩ := h.committed e he
  have hbegin := o.payloadBegin_ge r.dat.bytes
  have hheader := ho.inside.header
  have ho' := (Repository.objectAt_eq ho.found).2
  refine ⟨_, hoffset, by omega, fun hs => ho.signature ?_⟩
  unfold ObjectRow.flags
  rwa [ho', Int.toNat_natCast]

/-- One commit more. -/
theorem commit {v : Save σ} {s t u : SaveState σ} (hc : Landed env r v s t u)
    (hs : Supplied env content blocksize r v s t) : Catalogue env content blocksize
      (entries ++ [(r.dat.bytes.length, Drained content blocksize r v t)]) u.close := by
  obtain ⟨object, file, hobject, hfile, hclose, -⟩ := hc.saved.close_eq
  have hext : r.Extends u.close := hc.extends
  have hfiles : u.close.tables.files = r.tables.files ++ [file] := by rw [hclose]; rfl
  have hkept : r.tables.files ⊆ u.close.tables.files := hfiles ▸ List.subset_append_left _ _
  have hlast : file.object = r.dat.bytes.length := by rw [hfile, hobject]
  refine ⟨fun e he => ?_, fun row hrow => ?_⟩
  · rcases List.mem_append.mp he with he | he
    · obtain ⟨⟨row, hrow, hoffset⟩, o, ho⟩ := h.committed e he
      exact ⟨⟨row, hkept hrow, hoffset⟩, o, ho.keep hext hkept⟩
    · obtain rfl := List.mem_singleton.mp he
      exact ⟨⟨file, by simp [hfiles], hlast⟩, hs.decodable hc h.parents⟩
  · rw [hfiles] at hrow
    rcases List.mem_append.mp hrow with hrow | hrow
    · obtain ⟨e, he, hoffset⟩ := h.files row hrow
      exact ⟨e, List.mem_append_left _ he, hoffset⟩
    · rw [List.mem_singleton.mp hrow]
      exact ⟨_, List.mem_append_right _ (List.mem_singleton_self _), hlast⟩

/-- All files are read back exactly if everything holds that has to. -/
theorem decode_all_iff (hsize : r.dat.bytes.length ≤ 18446744073709551616) :
    (∀ offset, r.HasFile offset → r.decode env blocksize offset = some (content offset)) ↔
      ∀ e ∈ entries, e.2 := by
  have hlt : ∀ {n o ok}, Decodable env content blocksize r n o ok → n < 18446744073709551616 := by
    intro n o ok ho
    have hbegin := o.payloadBegin_ge r.dat.bytes
    have hheader := ho.inside.header
    have hoffset := (Repository.objectAt_eq ho.found).2
    omega
  refine ⟨fun hdecode e he => ?_, fun hall offset => ?_⟩
  · obtain ⟨hfile, o, ho⟩ := h.committed e he
    exact (ho.decode_iff fun prev hprev hf => ⟨hprev.trans (hlt ho), hdecode prev hf⟩).mp
      (hdecode e.1 hfile)
  · -- by the offset, as every parent lies before its deltas
    induction offset using Nat.strongRecOn with
    | ind offset ih =>
      rintro ⟨row, hrow, hoffset⟩
      obtain ⟨e, he, he'⟩ := h.files row hrow
      obtain rfl : offset = e.1 := by omega
      obtain ⟨-, o, ho⟩ := h.committed e he
      exact (ho.decode_iff fun prev hprev hf => ⟨hprev.trans (hlt ho), ih prev hprev hf⟩).mpr
        (hall e he)

end Catalogue

end Svs
