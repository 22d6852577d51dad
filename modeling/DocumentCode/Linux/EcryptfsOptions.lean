import DocumentCode.Linux.MatchToken

/-!
# The options of a mount

The table by which `ecryptfs` reads the options it is mounted with: an option is a name
alone, or a name, an equals sign and a text or a number.

Whatever an option writes is read back (`DocumentCode.Ecryptfs.matchToken_tokens`): the
table leads to the option and to its value, and to `ecryptfs_opt_err` for the strings that
no option writes. It does not matter in which order the entries with a pattern are, as long
as the one without comes last: the names of two options differ, and no name has an equals
sign in it.
-/

namespace DocumentCode

namespace Ecryptfs

open MatchToken Prog

/-- `ecryptfs_opt_...` -/
inductive Opt
  | sig
  | ecryptfsSig
  | cipher
  | ecryptfsCipher
  | ecryptfsKeyBytes
  | passthrough
  | xattrMetadata
  | encryptedView
  | fnekSig
  | fnCipher
  | fnCipherKeyBytes
  | unlinkSigs
  | checkDevRuid
  | err
  deriving DecidableEq, Repr

/-- `tokens` -/
def tokens : List (Opt × Option CStr) :=
  [(.sig, some (.ofString "sig=%s")),
    (.ecryptfsSig, some (.ofString "ecryptfs_sig=%s")),
    (.cipher, some (.ofString "cipher=%s")),
    (.ecryptfsCipher, some (.ofString "ecryptfs_cipher=%s")),
    (.ecryptfsKeyBytes, some (.ofString "ecryptfs_key_bytes=%u")),
    (.passthrough, some (.ofString "ecryptfs_passthrough")),
    (.xattrMetadata, some (.ofString "ecryptfs_xattr_metadata")),
    (.encryptedView, some (.ofString "ecryptfs_encrypted_view")),
    (.fnekSig, some (.ofString "ecryptfs_fnek_sig=%s")),
    (.fnCipher, some (.ofString "ecryptfs_fn_cipher=%s")),
    (.fnCipherKeyBytes, some (.ofString "ecryptfs_fn_key_bytes=%u")),
    (.unlinkSigs, some (.ofString "ecryptfs_unlink_sigs")),
    (.checkDevRuid, some (.ofString "ecryptfs_check_dev_ruid")),
    (.err, none)]

/-! ### What an option writes -/

/-- What comes after the name of an option. -/
inductive Value
  | text
  | number
  | none
  deriving DecidableEq, Repr

/-- The name of an option. -/
def Opt.name : Opt → String
  | sig => "sig"
  | ecryptfsSig => "ecryptfs_sig"
  | cipher => "cipher"
  | ecryptfsCipher => "ecryptfs_cipher"
  | ecryptfsKeyBytes => "ecryptfs_key_bytes"
  | passthrough => "ecryptfs_passthrough"
  | xattrMetadata => "ecryptfs_xattr_metadata"
  | encryptedView => "ecryptfs_encrypted_view"
  | fnekSig => "ecryptfs_fnek_sig"
  | fnCipher => "ecryptfs_fn_cipher"
  | fnCipherKeyBytes => "ecryptfs_fn_key_bytes"
  | unlinkSigs => "ecryptfs_unlink_sigs"
  | checkDevRuid => "ecryptfs_check_dev_ruid"
  | err => ""

/-- The kind of value it has. -/
def Opt.value : Opt → Value
  | sig | ecryptfsSig | cipher | ecryptfsCipher | fnekSig | fnCipher => .text
  | ecryptfsKeyBytes | fnCipherKeyBytes => .number
  | passthrough | xattrMetadata | encryptedView | unlinkSigs | checkDevRuid | err => .none

/-- **The option writes the string**, with a value. -/
def Opt.Writes (N : Numerals) (o : Opt) (v cs : List ℤ) : Prop :=
  o ≠ err ∧ match o.value with
    | .text => v ≠ [] ∧ cs = o.name.toList.map ch ++ ch '=' :: v
    | .number => v ≠ [] ∧ (N.strtoul 0 v).2 = v.length ∧ cs = o.name.toList.map ch ++ ch '=' :: v
    | .none => v = [] ∧ cs = o.name.toList.map ch

variable {N : Numerals} {o o' : Opt} {v v' cs : List ℤ} {as : List (List ℤ)}

theorem equals_notMem_name (o : Opt) : ch '=' ∉ o.name.toList.map ch := by
  cases o <;> decide

theorem percent_notMem_name (o : Opt) : ch '%' ∉ o.name.toList.map ch := by
  cases o <;> decide

theorem name_injective (h : o.name.toList.map ch = o'.name.toList.map ch) : o = o' := by
  revert h
  cases o <;> cases o' <;> decide

/-- The name of the option is what stands before the equals sign. -/
theorem Opt.Writes.takeWhile (h : o.Writes N v cs) :
    cs.takeWhile (· ≠ ch '=') = o.name.toList.map ch := by
  have hname : ∀ c ∈ o.name.toList.map ch, decide (c ≠ ch '=') = true := by
    intro c hc
    refine decide_eq_true fun heq => equals_notMem_name o ?_
    rwa [← heq]
  obtain ⟨-, h⟩ := h
  split at h
  · rw [h.2, List.takeWhile_append_of_pos hname]
    simp
  · rw [h.2.2, List.takeWhile_append_of_pos hname]
    simp
  · rw [h.2, List.takeWhile_eq_self_iff]
    exact hname

/-- **No string is written by two options.** -/
theorem Opt.Writes.unique (h : o.Writes N v cs) (h' : o'.Writes N v' cs) : o = o' :=
  name_injective (h.takeWhile.symm.trans h'.takeWhile)

/-! ### The table -/

/-- The pattern of an option. -/
def Opt.pattern (o : Opt) : List ℤ :=
  o.name.toList.map ch ++ match o.value with
    | .text => [ch '=', ch '%', ch 's']
    | .number => [ch '=', ch '%', ch 'u']
    | .none => []

theorem patterns : ∀ e ∈ tokens,
    e.2.map CStr.chars = if e.1 = .err then none else some e.1.pattern := by
  decide

/-- Each option but the last has an entry. -/
theorem exists_mem_tokens (ho : o ≠ .err) : ∃ p : CStr, (o, some p) ∈ tokens.dropLast := by
  cases o <;> first | exact absurd rfl ho | exact ⟨_, by simp [tokens]; rfl⟩

/-- The texts that are noted for a value. -/
def Opt.texts (o : Opt) (v : List ℤ) : List (List ℤ) := if o.value = .none then [] else [v]

/-- **A pattern of the table spells what its option writes.** -/
theorem spells_pattern (ho : o ≠ .err) :
    Spells N o.pattern cs as ↔ ∃ v, o.Writes N v cs ∧ as = o.texts v := by
  rw [Opt.pattern, spells_append (percent_notMem_name o)]
  simp only [Opt.Writes, Opt.texts]
  cases o.value with
  | text =>
    simp only [spells_char (show ch '=' ≠ ch '%' by decide), spells_text]
    constructor
    · rintro ⟨-, rfl, v, rfl, hv, rfl⟩
      exact ⟨v, ⟨ho, hv, rfl⟩, rfl⟩
    · rintro ⟨v, ⟨-, hv, rfl⟩, rfl⟩
      exact ⟨_, rfl, v, rfl, hv, rfl⟩
  | number =>
    simp only [spells_char (show ch '=' ≠ ch '%' by decide), spells_number]
    constructor
    · rintro ⟨-, rfl, v, rfl, hv, hlength, rfl⟩
      exact ⟨v, ⟨ho, hv, hlength, rfl⟩, rfl⟩
    · rintro ⟨v, ⟨-, hv, hlength, rfl⟩, rfl⟩
      exact ⟨_, rfl, v, rfl, hv, hlength, rfl⟩
  | none =>
    simp only [spells_nil]
    constructor
    · rintro ⟨-, rfl, rfl, rfl⟩
      exact ⟨[], ⟨ho, rfl, List.append_nil _⟩, rfl⟩
    · rintro ⟨v, ⟨-, rfl, rfl⟩, rfl⟩
      exact ⟨[], (List.append_nil _).symm, rfl, rfl⟩

/-- The string is one for an entry of the table if its option writes it. -/
theorem accepts_entry {p : CStr} (h : (o, some p) ∈ tokens) :
    Accepts N cs (some p) as ↔ o ≠ .err ∧ ∃ v, o.Writes N v cs ∧ as = o.texts v := by
  have hp : some p.chars = if o = .err then none else some o.pattern := patterns _ h
  split_ifs at hp with ho
  rw [Accepts, Option.some.inj hp, spells_pattern ho]
  constructor
  · exact fun h => ⟨ho, h.1⟩
  · rintro ⟨-, v, hv, rfl⟩
    refine ⟨⟨v, hv, rfl⟩, ?_⟩
    rw [Opt.texts]
    split_ifs
    · exact Nat.zero_le _
    · exact Nat.succ_le_succ (Nat.zero_le _)

theorem isSome_of_mem {e : Opt × Option CStr} (h : e ∈ tokens.dropLast) : e.2.isSome = true := by
  have hsome : ∀ e ∈ tokens.dropLast, e.2.isSome = true := by decide
  exact hsome e h

/-- Where all entries before the last one have a pattern, that one is the first without. -/
theorem entry_none {entries before after : List (Opt × Option CStr)}
    (hsome : ∀ e ∈ entries, e.2.isSome = true)
    (h : entries ++ [(.err, none)] = before ++ (o, none) :: after) :
    o = .err ∧ before = entries := by
  rcases List.eq_nil_or_concat after with rfl | ⟨after, e, rfl⟩
  · obtain ⟨hbefore, he⟩ := List.append_inj' h rfl
    exact ⟨(congrArg Prod.fst (List.cons.inj he).1).symm, hbefore.symm⟩
  · rw [List.concat_eq_append, ← List.cons_append, ← List.append_assoc] at h
    have hmem : (o, none) ∈ entries := by
      rw [(List.append_inj' h rfl).1]
      simp
    exact absurd (hsome _ hmem) (by simp)

/-- **What an option writes is read back**: `match_token` answers the option that writes the
string, and has noted its value; and it answers `ecryptfs_opt_err` for the strings that no
option writes. The entries with a pattern may be in any order. -/
theorem matchToken_tokens (N : Numerals) {s : CStr} (hs : s.strlen < 2 ^ 31)
    {entries : List (Opt × Option CStr)} (hentries : entries.Perm tokens.dropLast)
    (args : ℕ → SubstringT) :
    (matchToken N s (entries ++ [(.err, none)])).Ensures (table MAX_OPT_ARGS args) fun o t =>
      (∀ o' v, o'.Writes N v s.chars → o = o') ∧
        (o ≠ .err → ∃ args' v, t = table MAX_OPT_ARGS args' ∧ o.Writes N v s.chars ∧
          (o.value ≠ .none → (args' 0).text s.chars = v)) := by
  have hmem (e : Opt × Option CStr) : e ∈ entries ↔ e ∈ tokens.dropLast := hentries.mem_iff
  refine (matchToken_ensures N hs entries [] .err args).mono ?_
  rintro o t ⟨before, pattern, after, args', as, hsplit, hbefore, haccepts, rfl, hnoted⟩
  cases pattern with
  | none =>
    obtain ⟨rfl, rfl⟩ := entry_none (fun e he => isSome_of_mem ((hmem e).mp he)) hsplit
    refine ⟨fun o' v hv => ?_, fun h => absurd rfl h⟩
    obtain ⟨p, hp⟩ := exists_mem_tokens hv.1
    have haccepts' : Accepts N s.chars (some p) (o'.texts v) :=
      (accepts_entry (List.dropLast_subset _ hp)).mpr ⟨hv.1, v, hv, rfl⟩
    exact absurd haccepts' (hbefore _ ((hmem _).mpr hp) _)
  | some p =>
    have hp : (o, some p) ∈ entries ++ [(.err, none)] := by simp [hsplit]
    have hp' : (o, some p) ∈ tokens.dropLast := by simpa [hmem] using hp
    obtain ⟨ho, v, hv, rfl⟩ := (accepts_entry (List.dropLast_subset _ hp')).mp haccepts
    refine ⟨fun o' v' hv' => hv.unique hv', fun _ => ⟨args', v, rfl, hv, fun hvalue => ?_⟩⟩
    have htexts : o.texts v = [v] := if_neg hvalue
    rw [htexts] at hnoted
    exact hnoted 0 Nat.one_pos

/-- A cipher, by the table with its entries the other way round. -/
theorem matchToken_tokens_cipher :
    (matchToken noNumerals (.ofString "cipher=aes")
      (tokens.dropLast.reverse ++ [(.err, none)])).Ensures
      (table MAX_OPT_ARGS fun _ => ⟨0, 0⟩) fun o _ => o = .cipher := by
  refine (matchToken_tokens noNumerals (s := .ofString "cipher=aes") (by decide)
    (List.reverse_perm _) fun _ => ⟨0, 0⟩).mono ?_
  rintro o t ⟨h, -⟩
  exact h .cipher [ch 'a', ch 'e', ch 's'] ⟨by decide, List.cons_ne_nil _ _, by decide⟩

example : ((matchToken noNumerals (.ofString "cipher=aes") tokens).run 20
    (table MAX_OPT_ARGS fun _ => ⟨0, 0⟩)).map (fun r => r.toOption.map fun (o, t) => (o, t.head?)) =
      some (some (.cipher, some ⟨7, 10⟩)) := by
  decide +kernel

end Ecryptfs

end DocumentCode
