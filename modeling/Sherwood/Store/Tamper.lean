/-
# What the audit chain detects

A log that was only appended to is a chain. Its last hash commits to all of
it (`last_hash_commits`): the parts that a row's hash joins with newlines have
no newline in an appended row, so no other table with that hash verifies. That
is what an auditor who kept the hash knows.

One who kept nothing has only the table. An edit is caught unless it leaves an
initial piece of the log, up to bytes moved across the newlines between `at`,
`kind` and `data_json` of a row, or such a piece with one more row that carries
its own hash (`tampering_detected_iff`): nothing in the table tells where the
log should end.

Key definitions: `NoCollision`, `AuditEdit`, `Prefixed`, `LastRewritten`.
Key theorems: `last_hash_commits`, `tampering_detected_iff`.
-/
import Sherwood.Store.Audit

namespace Sherwood

open HashChain

variable {D : Digest}

/-- The digest does not collide on what the rows of two tables hash. -/
def NoCollision (D : Digest) (T T' : AuditLog) : Prop :=
  Set.InjOn D {bytes | ∃ r ∈ T.rows ++ T'.rows, bytes = r.bytes}

theorem NoCollision.chain {T T' : AuditLog} (h : NoCollision D T T') :
    (auditChain D).NoCollision T.rows T'.rows :=
  hex_injective.injOn.comp h fun _ _ => Set.mem_univ _

theorem hash_of_linked {rows : List AuditRow} (h : (auditChain D).Linked rows) {r : AuditRow}
    (hr : r ∈ rows) : r.hash = hex (D r.bytes) := by
  obtain ⟨us, vs, he⟩ := List.append_of_mem hr
  exact (h us r vs he).digest

theorem noCollision_of_nodup {T T' : AuditLog} (hT : (auditChain D).Linked T.rows)
    (hsub : T'.rows ⊆ T.rows) (hnodup : (T.rows.map AuditRow.hash).Nodup) : NoCollision D T T' := by
  have hmem : ∀ r ∈ T.rows ++ T'.rows, r ∈ T.rows := by
    intro r hr
    rcases List.mem_append.mp hr with h | h
    · exact h
    · exact hsub h
  rintro _ ⟨r, hr, rfl⟩ _ ⟨r', hr', rfl⟩ h
  have heq : r.hash = r'.hash := by
    rw [hash_of_linked hT (hmem r hr), hash_of_linked hT (hmem r' hr'), h]
  rw [List.inj_on_of_nodup_map hnodup (hmem r hr) (hmem r' hr') heq]

/-! ### What a hash tells of a row -/

/-- The texts of a row that its hash joins are of one line each. -/
structure AuditRow.OneLined (r : AuditRow) : Prop where
  prevHash : OneLine r.prevHash
  stamp : OneLine r.stamp
  kind : OneLine r.kind
  dataJson : OneLine r.dataJson

/-- **No bytes to move.** The bytes that are hashed of a row of one-line texts
determine its columns, whatever the texts of the other row are. -/
theorem AuditRow.OneLined.columns {r r' : AuditRow} (h : r.OneLined) (hb : r.bytes = r'.bytes) :
    r.prevHash = r'.prevHash ∧ r.seq = r'.seq ∧ r.stamp = r'.stamp ∧ r.kind = r'.kind ∧
      r.dataJson = r'.dataJson := by
  have hseq : OneLine (toString r.seq) := oneLine_toString_int r.seq
  have hone : ∀ p ∈ [r.prevHash, toString r.seq, r.stamp, r.kind, r.dataJson], OneLine p := by
    simp only [List.mem_cons, List.not_mem_nil, or_false, forall_eq_or_imp, forall_eq]
    exact ⟨h.prevHash, hseq, h.stamp, h.kind, h.dataJson⟩
  have hlines : lines [r.prevHash, toString r.seq, r.stamp, r.kind, r.dataJson] =
      lines [r'.prevHash, toString r'.seq, r'.stamp, r'.kind, r'.dataJson] := utf8_injective hb
  have hparts := lines_injective hone (by simp) hlines
  simp only [List.cons.injEq, and_true] at hparts
  obtain ⟨hprev, hnum, hrest⟩ := hparts
  exact ⟨hprev, Int.repr_inj.mp hnum, hrest⟩

/-- Rows of one number, one previous hash and one hash, whose other texts are
the same once they are joined. -/
structure AuditRow.Shifted (r r' : AuditRow) : Prop where
  seq : r'.seq = r.seq
  prevHash : r'.prevHash = r.prevHash
  hash : r'.hash = r.hash
  texts : lines [r'.stamp, r'.kind, r'.dataJson] = lines [r.stamp, r.kind, r.dataJson]

/-- Of rows whose previous hashes are of one line, the hash tells all but where
their other texts end. -/
theorem AuditRow.shifted_of_alike {r r' : AuditRow} (hp : OneLine r.prevHash) (hp' : OneLine r'.prevHash)
    (h : (auditChain D).Alike r r') : r.Shifted r' := by
  obtain ⟨-, htail⟩ := lines_cons_injective hp hp' (utf8_injective h.pre)
  obtain ⟨-, hlines⟩ := lines_cons_injective (oneLine_toString_int _) (oneLine_toString_int _) htail
  exact ⟨h.index.symm, h.prev.symm, h.digest.symm, hlines.symm⟩

theorem AuditRow.Shifted.alike {r r' : AuditRow} (h : r.Shifted r') : (auditChain D).Alike r r' := by
  refine ⟨h.seq.symm, h.prevHash.symm, h.hash.symm, congrArg utf8 ?_⟩
  rw [lines_cons r.prevHash, lines_cons (toString r.seq), lines_cons r'.prevHash, lines_cons (toString r'.seq),
    h.seq, h.prevHash, h.texts]

theorem oneLine_prevHash {rows : List AuditRow} (h : (auditChain D).Linked rows) :
    ∀ r ∈ rows, OneLine r.prevHash := by
  intro r hr
  obtain ⟨us, vs, rfl⟩ := List.append_of_mem hr
  have hprev : r.prevHash = (auditChain D).last us := (h us r vs rfl).prev
  rcases h.prefix.last_eq with he | ⟨bytes, he⟩
  · rw [hprev, he]
    exact (by decide : OneLine genesisHash)
  · rw [hprev, he]
    exact oneLine_hex _

theorem tells_of_linked {rows rows' : List AuditRow} (h : (auditChain D).Linked rows)
    (h' : (auditChain D).Linked rows') : (auditChain D).Tells rows rows' := by
  intro r hr r' hr' hb
  obtain ⟨hprev, htail⟩ :=
    lines_cons_injective (oneLine_prevHash h r hr) (oneLine_prevHash h' r' hr') (utf8_injective hb)
  obtain ⟨hseq, -⟩ := lines_cons_injective (oneLine_toString_int _) (oneLine_toString_int _) htail
  exact ⟨Int.repr_inj.mp hseq, hprev⟩

theorem tells_of_oneLined {rows rows' : List AuditRow} (h : ∀ r ∈ rows, r.OneLined) :
    (auditChain D).Tells rows rows' := by
  intro r hr r' _ hb
  obtain ⟨hprev, hseq, -⟩ := (h r hr).columns hb
  exact ⟨hseq, hprev⟩

theorem eq_of_alike : ∀ {rows rows' : List AuditRow}, (∀ r ∈ rows, r.OneLined) →
    List.Forall₂ (auditChain D).Alike rows rows' → rows' = rows
  | [], [], _, .nil => rfl
  | r :: rows, r' :: rows', hone, .cons hr hrows => by
    obtain ⟨hprev, hseq, hstamp, hkind, hdata⟩ := (hone r List.mem_cons_self).columns hr.pre
    have hhash : r.hash = r'.hash := hr.digest
    have heq : r' = r := by
      cases r
      cases r'
      simp_all
    rw [heq, eq_of_alike (fun x hx => hone x (List.mem_cons_of_mem _ hx)) hrows]

namespace AuditLog

theorem linked_ofCalls (D : Digest) (calls : List AuditCall) :
    (auditChain D).Linked (empty.appendAll D calls).rows :=
  linked_appendAll calls linked_nil

theorem oneLined_ofCalls {calls : List AuditCall} (hkind : ∀ call ∈ calls, OneLine call.kind) :
    ∀ r ∈ (empty.appendAll D calls).rows, r.OneLined := by
  intro r hr
  rcases mem_appendAll calls empty hr with h | ⟨call, hcall, hstamp, hk, hdata⟩
  · simp [empty] at h
  · refine ⟨oneLine_prevHash (linked_ofCalls D calls) r hr, ?_, ?_, ?_⟩
    · rw [hstamp]
      exact call.now.oneLine_toRfc3339
    · rw [hk]
      exact hkind call hcall
    · rw [hdata]
      exact Json.oneLine_render call.data

/-- A chain is numbered from one. -/
theorem seqs_of_linked {rows : List AuditRow} (h : (auditChain D).Linked rows) :
    rows.map AuditRow.seq = (List.range rows.length).map fun i : ℕ => (i : ℤ) + 1 := by
  induction rows using List.reverseRecOn with
  | nil => rfl
  | append_singleton rows r ih =>
    obtain ⟨hrows, hr⟩ := linked_snoc.mp h
    have hseq : r.seq = rows.length + 1 := hr.index
    rw [List.map_append, ih hrows, List.length_append, List.length_singleton, List.range_succ, List.map_append,
      List.map_singleton, List.map_singleton, hseq]

/-- A chain of one-line rows determines every chain with its last hash. -/
theorem eq_of_last_hash {T T' : AuditLog} (hT : (auditChain D).Linked T.rows) (hone : ∀ r ∈ T.rows, r.OneLined)
    (hT' : (auditChain D).Linked T'.rows) (hinj : NoCollision D T T')
    (hlast : T'.rows.getLast?.map AuditRow.hash = T.rows.getLast?.map AuditRow.hash) : T' = T := by
  have hrows : T'.rows = T.rows := by
    rcases List.eq_nil_or_concat' T.rows with he | ⟨rows, r, he⟩
    · simp only [he, List.getLast?_nil, Option.map_none, Option.map_eq_none_iff, List.getLast?_eq_none_iff] at hlast
      rw [he, hlast]
    · rcases List.eq_nil_or_concat' T'.rows with he' | ⟨rows', r', he'⟩
      · simp [he, he'] at hlast
      · have hchain := hinj.chain
        rw [he] at hT hone
        rw [he'] at hT'
        rw [he, he'] at hchain hlast ⊢
        have hd : r.hash = r'.hash := by simpa using hlast.symm
        have halike := hT.commits hT' (tells_of_oneLined hone) hchain hd
        exact eq_of_alike hone halike
  obtain ⟨rows, sorted⟩ := T
  obtain ⟨rows', sorted'⟩ := T'
  obtain rfl : rows' = rows := hrows
  rfl

end AuditLog

/-- **The last hash commits to the whole history.** Calls with one-line kinds
make a table that verifies, with as many rows, numbered from one; and of all
tables that verify it is the only one with its last hash. -/
theorem last_hash_commits (D : Digest) (calls : List AuditCall) (hkind : ∀ call ∈ calls, OneLine call.kind) :
    (AuditLog.empty.appendAll D calls).verify D = .ok calls.length ∧
      (AuditLog.empty.appendAll D calls).rows.map AuditRow.seq =
        (List.range calls.length).map (fun i : ℕ => (i : ℤ) + 1) ∧
      ∀ (T' : AuditLog) (m : ℤ), NoCollision D (AuditLog.empty.appendAll D calls) T' → T'.verify D = .ok m →
        T'.rows.getLast?.map AuditRow.hash =
          (AuditLog.empty.appendAll D calls).rows.getLast?.map AuditRow.hash →
        T' = AuditLog.empty.appendAll D calls := by
  have hlinked := AuditLog.linked_ofCalls D calls
  have hlen : (AuditLog.empty.appendAll D calls).rows.length = calls.length := by
    rw [AuditLog.length_appendAll, AuditLog.empty, List.length_nil, Nat.zero_add]
  refine ⟨verify_eq_ok_iff.mpr ⟨hlinked, by rw [hlen]⟩, ?_, fun T' m hinj hok hlast => ?_⟩
  · rw [AuditLog.seqs_of_linked hlinked, hlen]
  · exact AuditLog.eq_of_last_hash hlinked (AuditLog.oneLined_ofCalls hkind) (verify_eq_ok_iff.mp hok).1 hinj hlast

/-- One call, with the payload of a number. -/
def numbered (kind : String) (n : UInt64) : AuditCall := ⟨.epoch, kind, .obj [("n", .num (.posInt n))]⟩

/-- A log of three rows. -/
def threeCalls : List AuditCall := [numbered "a" 1, numbered "b" 2, numbered "c" 3]

theorem threeCalls_nodup :
    ((AuditLog.empty.appendAll Sha256.digest threeCalls).rows.map AuditRow.hash).Nodup := by
  decide +kernel

/-- The table of such a log, written out. -/
def writtenOut : AuditLog where
  rows := [
    ⟨1, "1970-01-01T00:00:00+00:00", "a", "\x7b\"n\":1\x7d", genesisHash,
      "1f9b3acf5cc396512f7dac0ba722e0df05c5b6409df3d48e505f9f62618d554c"⟩,
    ⟨2, "1970-01-01T00:00:00+00:00", "b", "\x7b\"n\":2\x7d",
      "1f9b3acf5cc396512f7dac0ba722e0df05c5b6409df3d48e505f9f62618d554c",
      "f0e648dd8aa6904c25268cb9e4c1943b7701b127baab2a99998b4bf85ceb2af8"⟩,
    ⟨3, "1970-01-01T00:00:00+00:00", "c", "\x7b\"n\":3\x7d",
      "f0e648dd8aa6904c25268cb9e4c1943b7701b127baab2a99998b4bf85ceb2af8",
      "febd57df5115c47f61572d607a1f019665885e399596775e529353472854fcc6"⟩]
  sorted := by decide

theorem last_hash_commits_numbered : writtenOut.verify Sha256.digest = .ok 3 ∧
    writtenOut = AuditLog.empty.appendAll Sha256.digest threeCalls := by
  have hrows : (AuditLog.empty.appendAll Sha256.digest threeCalls).rows = writtenOut.rows := by
    decide +kernel
  have hverify : writtenOut.verify Sha256.digest = .ok 3 := by
    decide +kernel
  obtain ⟨-, -, honly⟩ := last_hash_commits Sha256.digest threeCalls (by decide)
  refine ⟨hverify, honly writtenOut 3 (noCollision_of_nodup ?_ ?_ threeCalls_nodup) hverify (by rw [hrows])⟩
  · exact AuditLog.linked_ofCalls _ _
  · rw [hrows]
    exact fun _ h => h

/-! ### Edits -/

/-- An edit of a table behind the store's back. Rows are deleted (`none`) or get
other columns, and of the rows after a changed one none gets the hash that it
should now have. -/
structure AuditEdit (D : Digest) (T : AuditLog) where
  change : AuditRow → Option AuditRow
  result : AuditLog
  rows : result.rows.Perm (T.rows.filterMap change)
  touched : ∃ r ∈ T.rows, change r ≠ some r
  notRehashed : ∀ r ∈ T.rows, ∀ r', change r = some r' → r' ≠ r →
    ∀ s ∈ T.rows, r.seq < s.seq → ∀ s', change s = some s' → s'.hash = s.hash ∨ s'.hash ≠ s'.rehash D

/-- The edit that deletes the rows that satisfy `p`. -/
def AuditEdit.delete (D : Digest) (T : AuditLog) (p : AuditRow → Bool) (h : ∃ r ∈ T.rows, p r) :
    AuditEdit D T where
  change r := if p r then none else some r
  result := ⟨T.rows.filter fun r => !p r, T.sorted.filter _⟩
  rows := by
    have h : T.rows.filter (fun r => !p r) = T.rows.filterMap fun r => if p r then none else some r := by
      rw [← List.filterMap_eq_filter]
      refine List.filterMap_congr fun r _ => ?_
      cases hp : p r <;> simp [Option.guard, hp]
    exact .of_eq h
  touched := by
    obtain ⟨r, hr, hp⟩ := h
    exact ⟨r, hr, by simp [hp]⟩
  notRehashed := by
    intro r _ r' hr' hne
    split_ifs at hr' with hp
    exact absurd (Option.some.inj hr').symm hne

/-- `T'` is an initial piece of `T`, up to where the texts of a row end. -/
def Prefixed (T T' : AuditLog) : Prop :=
  List.Forall₂ AuditRow.Shifted (T.rows.take T'.rows.length) T'.rows

/-- `T'` is an initial piece of `T` and one more row, with the number, the
previous hash and the hash that it should have there. -/
def LastRewritten (D : Digest) (T T' : AuditLog) : Prop :=
  ∃ r, T'.rows = T.rows.take (T'.rows.length - 1) ++ [r] ∧
    (auditChain D).Follows (T'.rows.length - 1) ((auditChain D).last (T.rows.take (T'.rows.length - 1))) r

/-! ### Which edits are caught -/

theorem exists_of_forall₂ {α β : Type} {R : α → β → Prop} : ∀ {xs : List α} {ys : List β},
    List.Forall₂ R xs ys → ∀ x ∈ xs, ∃ y ∈ ys, R x y
  | x :: _, y :: _, .cons h hs, z, hz => by
    rcases List.mem_cons.mp hz with rfl | hz
    · exact ⟨y, List.mem_cons_self, h⟩
    · obtain ⟨w, hw, hR⟩ := exists_of_forall₂ hs z hz
      exact ⟨w, List.mem_cons_of_mem _ hw, hR⟩

theorem eq_of_forall₂ {α : Type} {R : α → α → Prop} : ∀ {xs ys : List α}, List.Forall₂ R xs ys →
    (∀ x ∈ xs, ∀ y ∈ ys, R x y → y = x) → ys = xs
  | [], [], .nil, _ => rfl
  | x :: xs, y :: ys, .cons h hs, heq => by
    rw [heq x List.mem_cons_self y List.mem_cons_self h, eq_of_forall₂ hs fun a ha b hb =>
      heq a (List.mem_cons_of_mem _ ha) b (List.mem_cons_of_mem _ hb)]

theorem AuditLog.eq_of_seq {T : AuditLog} {r s : AuditRow} (hr : r ∈ T.rows) (hs : s ∈ T.rows)
    (h : r.seq = s.seq) : r = s := by
  have hnodup : (T.rows.map AuditRow.seq).Nodup := by
    rw [List.Nodup, List.pairwise_map]
    exact T.sorted.imp fun hlt => ne_of_lt hlt
  exact List.inj_on_of_nodup_map hnodup hr hs h

namespace AuditEdit

variable {T : AuditLog} (e : AuditEdit D T)

/-- Where a row of the edited table comes from. -/
theorem source {r' : AuditRow} (h : r' ∈ e.result.rows) : ∃ r ∈ T.rows, e.change r = some r' := by
  simpa [List.mem_filterMap] using e.rows.mem_iff.mp h

/-- A changed row leaves the hashes of the later ones as they were, where the
edited table is a chain. -/
theorem hash_kept (hT' : (auditChain D).Linked e.result.rows) {r s r' s' : AuditRow} (hr : r ∈ T.rows)
    (hr' : e.change r = some r') (hne : r' ≠ r) (hs : s ∈ T.rows) (hlt : r.seq < s.seq)
    (hs' : e.change s = some s') : s'.hash = s.hash := by
  refine (e.notRehashed r hr r' hr' hne s hs hlt s' hs').resolve_right fun h => h ?_
  have hmem : s' ∈ e.result.rows := e.rows.mem_iff.mpr (List.mem_filterMap.mpr ⟨s, hs, hs'⟩)
  exact hash_of_linked hT' hmem

theorem rehashed_unique (hT' : (auditChain D).Linked e.result.rows) {r s r' s' : AuditRow} (hr : r ∈ T.rows)
    (hs : s ∈ T.rows) (hr' : e.change r = some r') (hs' : e.change s = some s') (hrne : r'.hash ≠ r.hash)
    (hsne : s'.hash ≠ s.hash) : r = s := by
  have hne : ∀ {x x' : AuditRow}, x'.hash ≠ x.hash → x' ≠ x := fun h he => h (by rw [he])
  rcases lt_trichotomy r.seq s.seq with hlt | heq | hgt
  · exact absurd (e.hash_kept hT' hr hr' (hne hrne) hs hlt hs') hsne
  · exact AuditLog.eq_of_seq hr hs heq
  · exact absurd (e.hash_kept hT' hs hs' (hne hsne) hr hgt hr') hrne

section

variable {e} (hT : (auditChain D).Linked T.rows) (hT' : (auditChain D).Linked e.result.rows)
  (hinj : NoCollision D T e.result)

include hT hinj

theorem eq_of_hash {r s : AuditRow} (hr : r ∈ T.rows) (hs : s ∈ T.rows) (h : r.hash = s.hash) : r = s := by
  have hbytes : r.bytes = s.bytes :=
    hinj ⟨r, List.mem_append_left _ hr, rfl⟩ ⟨s, List.mem_append_left _ hs, rfl⟩
      (hex_injective (by rw [← hash_of_linked hT hr, ← hash_of_linked hT hs, h]))
  exact AuditLog.eq_of_seq hr hs (tells_of_linked hT hT r hr s hs hbytes).1

include hT'

/-- Up to a row with the hash of a row of the log, the edited table is an
initial piece of it. -/
theorem prefixed_of_hash {rows rest : List AuditRow} {r r' : AuditRow}
    (hrows : e.result.rows = rows ++ r' :: rest) (hr : r ∈ T.rows) (hhash : r'.hash = r.hash) :
    List.Forall₂ AuditRow.Shifted (T.rows.take (rows.length + 1)) (rows ++ [r']) := by
  obtain ⟨us, vs, hus⟩ := List.append_of_mem hr
  have hchain := hinj.chain
  have htell := tells_of_linked hT hT'
  have hone := oneLine_prevHash hT
  have hone' := oneLine_prevHash hT'
  have hlinked := hT
  rw [hus] at hlinked hchain htell hone
  rw [hrows] at hT' hchain htell hone'
  have halike := hlinked.agree hT' htell hchain hhash.symm
  have hlen : us.length = rows.length := by simpa using halike.length_eq
  have htake : T.rows.take (rows.length + 1) = us ++ [r] := by
    rw [hus, ← hlen, List.append_cons]
    exact List.take_left' (by simp)
  rw [htake]
  -- both tables have previous hashes of one line
  have hsub : ∀ {ws zs : List AuditRow} {w : AuditRow}, ws ++ [w] ⊆ ws ++ w :: zs := by
    intro ws zs w
    rw [List.append_cons ws w zs]
    exact List.subset_append_left _ _
  refine List.forall₂_iff_zip.mpr ⟨halike.length_eq, fun {x y} hxy => ?_⟩
  have hmem := List.of_mem_zip hxy
  exact AuditRow.shifted_of_alike (hone x (hsub hmem.1)) (hone' y (hsub hmem.2))
    (List.forall₂_zip halike hxy)

/-- Where the last row got another hash, the rows before it are the first rows
of the log. -/
theorem take_of_rehashed {rows : List AuditRow} {x y : AuditRow} (hrows : e.result.rows = rows ++ [y])
    (hx : x ∈ T.rows) (hxy : e.change x = some y) (hne : y.hash ≠ x.hash) :
    rows = T.rows.take rows.length := by
  have hbefore : ∀ z ∈ rows, z.seq < y.seq := by
    intro z hz
    have hsorted := e.result.sorted
    rw [hrows, List.pairwise_append] at hsorted
    exact hsorted.2.2 z hz y (by simp)
  -- the other rows kept the hash of the row they come from
  have hkept : ∀ z ∈ rows, ∃ w ∈ T.rows, e.change w = some z ∧ z.hash = w.hash := by
    intro z hz
    obtain ⟨w, hw, hwz⟩ := e.source (by rw [hrows]; exact List.mem_append_left _ hz)
    refine ⟨w, hw, hwz, ?_⟩
    by_contra hwne
    obtain rfl := e.rehashed_unique hT' hw hx hwz hxy hwne hne
    obtain rfl := Option.some.inj (hwz.symm.trans hxy)
    exact lt_irrefl _ (hbefore z hz)
  rcases List.eq_nil_or_concat' rows with rfl | ⟨front, z, rfl⟩
  · rfl
  obtain ⟨w, hw, hwz, hhash⟩ := hkept z (by simp)
  have hsplit : e.result.rows = front ++ z :: [y] := by rw [hrows]; simp
  have hshift := prefixed_of_hash hT hT' hinj hsplit hw hhash
  rw [List.length_append, List.length_singleton]
  -- a first row of the log becomes the row that it cannot be told from
  have hsame : ∀ a ∈ T.rows, ∀ b ∈ front ++ [z], a.Shifted b → e.change a = some b := by
    intro a ha b hb hab
    obtain ⟨c, hc, hcb, hch⟩ := hkept b hb
    rwa [eq_of_hash hT hinj ha hc (by rw [← hab.hash, hch])]
  have hxfront : x ∉ T.rows.take (front.length + 1) := by
    intro hmem
    obtain ⟨b, hb, hxb⟩ := exists_of_forall₂ hshift x hmem
    obtain rfl := Option.some.inj ((hsame x hx b hb hxb).symm.trans hxy)
    exact lt_irrefl _ (hbefore b hb)
  refine eq_of_forall₂ hshift fun a ha b hb hab => ?_
  have haT := List.mem_of_mem_take ha
  by_contra hba
  rcases lt_or_ge a.seq x.seq with hlt | hle
  · exact hne (e.hash_kept hT' haT (hsame a haT b hb hab) hba hx hlt hxy)
  · -- the first rows are those with the first numbers
    have hsorted := T.sorted
    rw [← List.take_append_drop (front.length + 1) T.rows, List.pairwise_append] at hsorted
    rw [← List.take_append_drop (front.length + 1) T.rows, List.mem_append] at hx
    rcases hx with hx | hx
    · exact hxfront hx
    · have := hsorted.2.2 a ha x hx
      omega

/-- An edited table that is a chain is an initial piece of the log, or such a
piece and one more row. -/
theorem prefixed_or_lastRewritten : Prefixed T e.result ∨ LastRewritten D T e.result := by
  rcases List.eq_nil_or_concat' e.result.rows with hnil | ⟨rows, y, hrows⟩
  · left
    simp [Prefixed, hnil]
  have hy : y ∈ e.result.rows := by rw [hrows]; simp
  obtain ⟨x, hx, hxy⟩ := e.source hy
  have hlen : e.result.rows.length = rows.length + 1 := by rw [hrows]; simp
  by_cases hhash : y.hash = x.hash
  · left
    have h := prefixed_of_hash hT hT' hinj hrows hx hhash
    rwa [← hlen, ← hrows] at h
  · right
    have htake := take_of_rehashed hT hT' hinj hrows hx hxy hhash
    refine ⟨y, ?_, ?_⟩
    · rw [hlen, Nat.add_sub_cancel, ← htake, hrows]
    · rw [hlen, Nat.add_sub_cancel, ← htake]
      exact (linked_snoc.mp (hrows ▸ hT')).2

end

end AuditEdit

theorem linked_of_prefixed {T T' : AuditLog} (hT : (auditChain D).Linked T.rows) (h : Prefixed T T') :
    (auditChain D).Linked T'.rows := by
  have htake : (auditChain D).Linked (T.rows.take T'.rows.length) := by
    rw [← List.take_append_drop T'.rows.length T.rows] at hT
    exact hT.prefix
  exact htake.congr (h.imp fun _ _ hs => hs.alike)

theorem linked_of_lastRewritten {T T' : AuditLog} (hT : (auditChain D).Linked T.rows)
    (h : LastRewritten D T T') : (auditChain D).Linked T'.rows := by
  obtain ⟨r, hrows, hfollows⟩ := h
  have htake : (auditChain D).Linked (T.rows.take (T'.rows.length - 1)) := by
    rw [← List.take_append_drop (T'.rows.length - 1) T.rows] at hT
    exact hT.prefix
  have hlen : (T.rows.take (T'.rows.length - 1)).length = T'.rows.length - 1 := by
    have := congrArg List.length hrows
    rw [List.length_append, List.length_singleton] at this
    omega
  rw [hrows]
  exact linked_snoc.mpr ⟨htake, by rwa [hlen]⟩

/-- **Which edits are caught.** An edit of a log that was only appended to is
found broken, unless it leaves an initial piece of the log up to where the
texts of a row end, or such a piece with one row that was rehashed. -/
theorem tampering_detected_iff (D : Digest) (calls : List AuditCall)
    (e : AuditEdit D (AuditLog.empty.appendAll D calls))
    (hinj : NoCollision D (AuditLog.empty.appendAll D calls) e.result) :
    (e.result.verify D).IsBroken ↔ ¬ (Prefixed (AuditLog.empty.appendAll D calls) e.result ∨
      LastRewritten D (AuditLog.empty.appendAll D calls) e.result) := by
  have hT := AuditLog.linked_ofCalls D calls
  rw [isBroken_iff, not_iff_not]
  constructor
  · intro hT'
    exact AuditEdit.prefixed_or_lastRewritten hT hT' hinj
  · rintro (h | h)
    · exact linked_of_prefixed hT h
    · exact linked_of_lastRewritten hT h

/-- Deleting rows of it, by their numbers. -/
def threeCallsWithout (seq : ℤ) (h : seq ∈ [1, 2, 3]) :
    AuditEdit Sha256.digest (AuditLog.empty.appendAll Sha256.digest threeCalls) :=
  .delete _ _ (fun r => r.seq = seq) <| by
    have hseqs := AuditLog.seqs_of_linked (AuditLog.linked_ofCalls Sha256.digest threeCalls)
    rw [AuditLog.length_appendAll] at hseqs
    have hmem : seq ∈ (AuditLog.empty.appendAll Sha256.digest threeCalls).rows.map AuditRow.seq := by
      rw [hseqs]
      exact h
    obtain ⟨r, hr, rfl⟩ := List.mem_map.mp hmem
    exact ⟨r, hr, by simp⟩

theorem threeCallsWithout_noCollision (seq : ℤ) (h : seq ∈ [1, 2, 3]) :
    NoCollision Sha256.digest (AuditLog.empty.appendAll Sha256.digest threeCalls) (threeCallsWithout seq h).result :=
  noCollision_of_nodup (AuditLog.linked_ofCalls _ _) (List.filter_subset_self _) threeCalls_nodup

theorem tampering_detected_iff_first : ((threeCallsWithout 1 (by decide)).result.verify Sha256.digest).IsBroken ↔
    ¬ (Prefixed (AuditLog.empty.appendAll Sha256.digest threeCalls) (threeCallsWithout 1 (by decide)).result ∨
      LastRewritten Sha256.digest (AuditLog.empty.appendAll Sha256.digest threeCalls)
        (threeCallsWithout 1 (by decide)).result) :=
  tampering_detected_iff Sha256.digest threeCalls (threeCallsWithout 1 (by decide))
    (threeCallsWithout_noCollision 1 (by decide))

theorem threeCallsWithout_newest : Prefixed (AuditLog.empty.appendAll Sha256.digest threeCalls)
    (threeCallsWithout 3 (by decide)).result := by
  have hseqs := AuditLog.seqs_of_linked (AuditLog.linked_ofCalls Sha256.digest threeCalls)
  have hlen : (AuditLog.empty.appendAll Sha256.digest threeCalls).rows.length = 3 := AuditLog.length_appendAll _ _
  obtain ⟨a, b, c, hrows⟩ := List.length_eq_three.mp hlen
  have hnumbers : a.seq = 1 ∧ b.seq = 2 ∧ c.seq = 3 := by
    rw [hrows] at hseqs
    simpa [List.range_succ] using hseqs
  obtain ⟨ha, hb, hc⟩ := hnumbers
  have hresult : (threeCallsWithout 3 (by decide)).result.rows = [a, b] := by
    show (AuditLog.empty.appendAll Sha256.digest threeCalls).rows.filter (fun r => !decide (r.seq = 3)) = [a, b]
    simp [hrows, ha, hb, hc]
  rw [Prefixed, hresult, hrows]
  exact .cons ⟨rfl, rfl, rfl, rfl⟩ (.cons ⟨rfl, rfl, rfl, rfl⟩ .nil)

/-- Deleting the newest row is not detected. -/
theorem newest_deletion_undetected : ¬ ∀ (calls : List AuditCall)
    (e : AuditEdit Sha256.digest (AuditLog.empty.appendAll Sha256.digest calls)),
    NoCollision Sha256.digest (AuditLog.empty.appendAll Sha256.digest calls) e.result →
      (e.result.verify Sha256.digest).IsBroken := by
  intro hclaim
  have hbroken := hclaim threeCalls (threeCallsWithout 3 (by decide)) (threeCallsWithout_noCollision 3 (by decide))
  have hlinked := linked_of_prefixed (AuditLog.linked_ofCalls Sha256.digest threeCalls) threeCallsWithout_newest
  exact isBroken_iff.mp hbroken hlinked

end Sherwood
