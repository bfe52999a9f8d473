/-
# The tokens of a server that is started again

`sherwood serve` takes the tokens of its roles from the vault, and makes a token where a name has
none. Between two starts the vault is used by others (`sherwood secrets`, other starts), and what
they write may be interrupted.

A token is made once: two starts that succeed have the same token for a name, unless it was
written in between, and with the same references they grant the same roles
(`tokens_stay`). A start that cannot read the vault makes none.

Key definitions: `loadOrCreate`, `startTokens`, `VaultUse.system`, `HasToken`.
Key theorems: `StartM.Grows.bind`, `grows_startTokens`, `map_of_call`, `remembered_step`, `tokens_stay`.
-/
import Sherwood.Secrets.VaultRuns
import Sherwood.Server.Auth

namespace Sherwood.Secrets

/-! ### A start -/

/-- Where a start fails: the vault is not read or not written, or there is no randomness. -/
inductive StartError where
  | read (e : VaultError)
  | csprng (e : String)
  | write (e : VaultError)

inductive TokenOrigin where
  | loaded
  | created
  deriving DecidableEq

/-- What a token is made with: the bytes that the system gives, and the salt and the nonce of the
write. -/
structure Entropy where
  bytes : Except String (Vector UInt8 32)
  salt : Vector UInt8 16
  nonce : Vector UInt8 24

/-- What is done on the file of a vault until it fails; `none` is a panic. -/
abbrev StartM := ExceptT StartError (StateT Contents Option)

/-- The references of a config: the vault's names, each with or without `vault:`. -/
structure TokenRefs where
  admin : String
  operator : Option String
  viewer : Option String

/-- `vault_name`. -/
def tokenName (reference : String) : String := (refName reference).getD (trimStr reference)

variable (crates : Crates) (vault : FileVault)

/-- `ApiToken::load_or_create`. -/
def loadOrCreate (name : String) (fresh : Entropy) : StartM (String × TokenOrigin) := ExceptT.mk fun file =>
  match vault.get crates file name with
  | .panic => none
  | .err e => some (.error (.read e), file)
  | .ok (some existing) => some (.ok (existing, .loaded), file)
  | .ok none =>
    match fresh.bytes with
    | .error e => some (.error (.csprng e), file)
    | .ok bytes =>
      match vault.set crates file name (hex bytes.toList) fresh.salt fresh.nonce with
      | .panic => none
      | .err e => some (.error (.write e), file)
      | .ok ops => some (.ok (hex bytes.toList, .created), ops.foldl FileOp.run file)

/-- `resolve_token`. -/
def resolveToken (reference : String) (fresh : Entropy) : StartM String := do
  let (token, _) ← loadOrCreate crates vault (tokenName reference) fresh
  return token

/-- The token of a role that may have none. -/
def resolveOptional (reference : Option String) (fresh : Entropy) : StartM (Option String) :=
  match reference with
  | none => pure none
  | some reference => do
    let token ← resolveToken crates vault reference fresh
    return some token

/-- The tokens that `serve` starts with. -/
def startTokens (refs : TokenRefs) (admin operator viewer : Entropy) : StartM TokenSet := do
  let admin ← resolveToken crates vault refs.admin admin
  let operator ← resolveOptional crates vault refs.operator operator
  let viewer ← resolveOptional crates vault refs.viewer viewer
  return ⟨admin, operator, viewer⟩

/-! ### What a start does to the map -/

/-- What a map holds, another holds too. -/
def Extends (map map' : SecretMap) : Prop := ∀ name value, map.lookup name = some value → map'.lookup name = some value

theorem Extends.refl (map : SecretMap) : Extends map map := fun _ _ h => h

theorem Extends.trans {m₁ m₂ m₃ : SecretMap} (h : Extends m₁ m₂) (h' : Extends m₂ m₃) : Extends m₁ m₃ :=
  fun name value hl => h' name value (h name value hl)

theorem extends_insert {map : SecretMap} {name value : String} (h : map.lookup name = none) :
    Extends map (map.insert name value) := by
  intro name' value' hl
  by_cases hn : name' = name
  · rw [hn, h] at hl
    simp at hl
  · rwa [Finmap.lookup_insert_of_ne _ hn]

section

variable {crates : Crates} {vault : FileVault} {α β : Type}

namespace StartM

/-- From a file whose map is `P`, there is a map afterwards that holds what that one held, and is
`Q` of the result if there is one. -/
def Grows (crates : Crates) (vault : FileVault) (P : SecretMap → Prop) (m : StartM α) (Q : α → SecretMap → Prop) :
    Prop :=
  ∀ file map, vault.loadMap crates file = .ok map → P map → ∀ r file', m file = some (r, file') →
    ∃ map', vault.loadMap crates file' = .ok map' ∧ Extends map map' ∧ ∀ a, r = .ok a → Q a map'

/-- Where there is no map it fails, and leaves the file. -/
def NeedsMap (crates : Crates) (vault : FileVault) (m : StartM α) : Prop :=
  ∀ file, (∀ map, vault.loadMap crates file ≠ .ok map) → ∀ r file', m file = some (r, file') →
    (∃ e, r = .error e) ∧ file' = file

theorem bind_apply (m : StartM α) (f : α → StartM β) (file : Contents) : (m >>= f) file =
    (m file).bind fun r => match r.1 with
      | .ok a => f a r.2
      | .error e => some (.error e, r.2) := by
  show (m file).bind _ = _
  congr 1
  funext ⟨r, file'⟩
  cases r with
  | ok a => rfl
  | error e => rfl

variable {P : SecretMap → Prop} {Q : α → SecretMap → Prop} {R : β → SecretMap → Prop} {m : StartM α} {f : α → StartM β}

theorem Grows.pure {a : α} : Grows crates vault P (pure a) fun b map => b = a ∧ P map := by
  intro file map hload hP r file' h
  obtain ⟨rfl, rfl⟩ := Prod.mk.inj (Option.some.inj h)
  exact ⟨map, hload, .refl map, fun b hb => ⟨(Except.ok.inj hb).symm, hP⟩⟩

theorem Grows.bind (hm : Grows crates vault P m Q) (hf : ∀ a, Grows crates vault (Q a) (f a) R) :
    Grows crates vault P (m >>= f) R := by
  intro file map hload hP r file' h
  rw [bind_apply] at h
  obtain ⟨⟨r₁, file₁⟩, hfirst, hrest⟩ := Option.bind_eq_some_iff.mp h
  obtain ⟨map₁, hload₁, hextends, hQ⟩ := hm file map hload hP r₁ file₁ hfirst
  cases r₁ with
  | error e =>
    obtain ⟨rfl, rfl⟩ := Prod.mk.inj (Option.some.inj hrest)
    exact ⟨map₁, hload₁, hextends, fun a ha => by simp at ha⟩
  | ok a =>
    obtain ⟨map₂, hload₂, hextends₂, hR⟩ := hf a file₁ map₁ hload₁ (hQ a rfl) r file' hrest
    exact ⟨map₂, hload₂, hextends.trans hextends₂, hR⟩

theorem Grows.frame (hm : Grows crates vault (fun _ => True) m Q)
    (hP : ∀ map map', P map → Extends map map' → P map') :
    Grows crates vault P m fun a map => P map ∧ Q a map := by
  intro file map hload hp r file' h
  obtain ⟨map', hload', hextends, hQ⟩ := hm file map hload trivial r file' h
  exact ⟨map', hload', hextends, fun a ha => ⟨hP map map' hp hextends, hQ a ha⟩⟩

theorem Grows.imp {Q' : α → SecretMap → Prop} (hm : Grows crates vault P m Q) (h : ∀ a map, Q a map → Q' a map) :
    Grows crates vault P m Q' := by
  intro file map hload hP r file' hrun
  obtain ⟨map', hload', hextends, hQ⟩ := hm file map hload hP r file' hrun
  exact ⟨map', hload', hextends, fun a ha => h a map' (hQ a ha)⟩

theorem NeedsMap.bind (hm : NeedsMap crates vault m) : NeedsMap crates vault (m >>= f) := by
  intro file hlost r file' h
  rw [bind_apply] at h
  obtain ⟨⟨r₁, file₁⟩, hfirst, hrest⟩ := Option.bind_eq_some_iff.mp h
  obtain ⟨⟨e, rfl⟩, rfl⟩ := hm file hlost r₁ file₁ hfirst
  obtain ⟨rfl, rfl⟩ := Prod.mk.inj (Option.some.inj hrest)
  exact ⟨⟨e, rfl⟩, rfl⟩

end StartM

open StartM

variable {name : String} {fresh : Entropy}

/-- A token is the one that is there, or a new one where there was none. -/
theorem grows_loadOrCreate (hlaw : Lawful crates) : Grows crates vault (fun _ => True)
    (loadOrCreate crates vault name fresh) fun a map => map.lookup name = some a.1 := by
  intro file map hload _ r file' h
  have hget : vault.get crates file name = .ok (map.lookup name) := by rw [FileVault.get, hload]; rfl
  rw [loadOrCreate] at h
  dsimp only [ExceptT.mk] at h
  rw [hget] at h
  cases hlookup : map.lookup name with
  | some existing =>
    rw [hlookup] at h
    obtain ⟨rfl, rfl⟩ := Prod.mk.inj (Option.some.inj h)
    exact ⟨map, hload, .refl map, fun a ha => Except.ok.inj ha ▸ hlookup⟩
  | none =>
    have hfailed {e : StartError} (he : r = .error e) (hfile : file' = file) : ∃ map',
        vault.loadMap crates file' = .ok map' ∧ Extends map map' ∧ ∀ a, r = .ok a → map'.lookup name = some a.1 :=
      ⟨map, hfile ▸ hload, .refl map, fun a ha => by rw [he] at ha; simp at ha⟩
    simp only [hlookup] at h
    split at h
    · obtain ⟨rfl, rfl⟩ := Prod.mk.inj (Option.some.inj h)
      exact hfailed rfl rfl
    · next bytes _ =>
      split at h
      · simp at h
      · obtain ⟨rfl, rfl⟩ := Prod.mk.inj (Option.some.inj h)
        exact hfailed rfl rfl
      · next ops hset =>
        obtain ⟨rfl, rfl⟩ := Prod.mk.inj (Option.some.inj h)
        rw [FileVault.set, hload, Outcome.ok_bind] at hset
        refine ⟨_, FileVault.loadMap_stored hlaw hset, extends_insert hlookup, fun a ha => ?_⟩
        rw [← Except.ok.inj ha]
        exact Finmap.lookup_insert map

theorem needsMap_loadOrCreate : NeedsMap crates vault (loadOrCreate crates vault name fresh) := by
  intro file hlost r file' h
  have hget : ∀ value, vault.get crates file name ≠ .ok value := by
    intro value hvalue
    obtain ⟨map, hload, -⟩ := Outcome.bind_eq_ok.mp hvalue
    exact hlost map hload
  rw [loadOrCreate] at h
  dsimp only [ExceptT.mk] at h
  cases hvalue : vault.get crates file name with
  | ok value => exact absurd hvalue (hget value)
  | err e =>
    rw [hvalue] at h
    obtain ⟨rfl, rfl⟩ := Prod.mk.inj (Option.some.inj h)
    exact ⟨⟨_, rfl⟩, rfl⟩
  | panic =>
    rw [hvalue] at h
    simp at h

/-- The token `t` of a start with `refs`, by its name in the vault. -/
inductive HasToken (refs : TokenRefs) (t : TokenSet) : String → String → Prop
  | admin : HasToken refs t (tokenName refs.admin) t.admin
  | operator {reference token : String} : refs.operator = some reference → t.operator = some token →
      HasToken refs t (tokenName reference) token
  | viewer {reference token : String} : refs.viewer = some reference → t.viewer = some token →
      HasToken refs t (tokenName reference) token

variable {refs : TokenRefs} {admin operator viewer : Entropy}

theorem grows_resolveToken (hlaw : Lawful crates) (reference : String) : Grows crates vault (fun _ => True)
    (resolveToken crates vault reference fresh) fun token map => map.lookup (tokenName reference) = some token := by
  refine (grows_loadOrCreate hlaw).bind fun a => ?_
  exact Grows.pure.imp fun token map ⟨htoken, hheld⟩ => htoken ▸ hheld

theorem grows_resolveOptional (hlaw : Lawful crates) (reference : Option String) : Grows crates vault (fun _ => True)
    (resolveOptional crates vault reference fresh) fun token map => token.isSome = reference.isSome ∧
      ∀ r t, reference = some r → token = some t → map.lookup (tokenName r) = some t := by
  cases reference with
  | none => exact Grows.pure.imp fun token map ⟨htoken, _⟩ => ⟨by rw [htoken], fun r t hr => by simp at hr⟩
  | some reference =>
    refine (grows_resolveToken hlaw reference).bind fun token => Grows.pure.imp fun a map ⟨ha, hheld⟩ => ?_
    refine ⟨by rw [ha]; rfl, fun r t hr ht => ?_⟩
    rw [ha] at ht
    rw [← Option.some.inj hr, ← Option.some.inj ht]
    exact hheld

theorem grows_startTokens (hlaw : Lawful crates) : Grows crates vault (fun _ => True)
    (startTokens crates vault refs admin operator viewer) fun t map =>
      (∀ name token, HasToken refs t name token → map.lookup name = some token) ∧
        t.operator.isSome = refs.operator.isSome ∧ t.viewer.isSome = refs.viewer.isSome := by
  refine (grows_resolveToken hlaw refs.admin).bind fun a => ?_
  refine ((grows_resolveOptional hlaw refs.operator).frame fun map map' hp he => he _ _ hp).bind fun o => ?_
  refine ((grows_resolveOptional hlaw refs.viewer).frame fun map map' hp he => ?_).bind fun v => Grows.pure.imp ?_
  · exact ⟨he _ _ hp.1, hp.2.1, fun r t hr ht => he _ _ (hp.2.2 r t hr ht)⟩
  · rintro t map ⟨rfl, ⟨hadmin, hosome, hoperator⟩, hvsome, hviewer⟩
    refine ⟨fun name token hhas => ?_, hosome, hvsome⟩
    cases hhas with
    | admin => exact hadmin
    | operator hr ht => exact hoperator _ _ hr ht
    | viewer hr ht => exact hviewer _ _ hr ht

theorem needsMap_startTokens : NeedsMap crates vault (startTokens crates vault refs admin operator viewer) :=
  NeedsMap.bind (NeedsMap.bind needsMap_loadOrCreate)

end

/-! ### Starts, and what else uses the vault -/

/-- A call by anyone, which may be interrupted, or a start with what is random in it. (A start that
is interrupted is the calls it has made.) -/
inductive VaultUse where
  | call (c : VaultCall) (cut : Option Contents)
  | start (refs : TokenRefs) (admin operator viewer : Entropy)

inductive VaultUsed where
  | called (r : VaultRecord)
  | started (refs : TokenRefs) (result : Except StartError TokenSet)

/-- A call that writes the value of a name. -/
def VaultCall.WritesTo (name : String) : VaultCall → Prop
  | .set n .. | .delete n .. => n = name
  | _ => False

/-- It wrote, or may have written, the value of a name. -/
def VaultUsed.Wrote (name : String) : VaultUsed → Prop
  | .called r => r.call.WritesTo name ∧ ∀ e, r.ending ≠ .failed e
  | .started .. => False

namespace VaultUse

variable (crates : Crates) (vault : FileVault)

def step (file : Contents) : VaultUse → Option (Contents × VaultUsed)
  | .call c cut => ((vault.system crates).step file (c, cut)).map fun (file, r) => (file, .called r)
  | .start refs admin operator viewer =>
    (startTokens crates vault refs admin operator viewer file).map fun (result, file) => (file, .started refs result)

def system : Lts Contents VaultUse VaultUsed := ⟨step crates vault⟩

end VaultUse

section

variable {crates : Crates} {vault : FileVault} {file file' : Contents} {os : List VaultUsed} {o : VaultUsed}
  {map map' : SecretMap} {name value : String}

theorem lookup_meaning {c : VaultCall} (h : ¬ c.WritesTo name) :
    (c.meaning map).2.lookup name = map.lookup name := by
  cases c with
  | set n value salt nonce => exact Finmap.lookup_insert_of_ne map fun heq => h heq.symm
  | delete n salt nonce => exact Finmap.lookup_erase_ne fun heq => h heq.symm
  | get n => rfl
  | list => rfl
  | resolve value => rfl

/-- What there is after a call, was there before, or is what the call means. -/
theorem map_of_call (hlaw : Lawful crates) {a : VaultCall × Option Contents} {r : VaultRecord}
    (hstep : (vault.system crates).step file a = some (file', r)) (hload' : vault.loadMap crates file' = .ok map') :
    ∃ map, vault.loadMap crates file = .ok map ∧
      (map' = map ∨ map' = (a.1.meaning map).2 ∧ ∀ e, r.ending ≠ .failed e) ∧ r.call = a.1 := by
  obtain ⟨c, cut⟩ := a
  simp only [FileVault.system, FileVault.step] at hstep
  have hsame {m : SecretMap} (hload : vault.loadMap crates file = .ok m) (hfile : file' = file) : map' = m := by
    rw [hfile, hload] at hload'
    exact (Outcome.ok.inj hload').symm
  cases hcall : vault.call crates file c with
  | panic => simp [hcall] at hstep
  | err e =>
    rw [hcall] at hstep
    obtain ⟨rfl, rfl⟩ := Prod.mk.inj (Option.some.inj hstep)
    exact ⟨map', hload', .inl rfl, rfl⟩
  | ok q =>
    obtain ⟨reply, ops⟩ := q
    rw [hcall] at hstep
    by_cases hmap : ∃ map, vault.loadMap crates file = .ok map
    · obtain ⟨map, hload⟩ := hmap
      obtain ⟨-, hops⟩ := FileVault.call_eq_ok hload hcall
      refine ⟨map, hload, ?_⟩
      cases cut with
      | none =>
        obtain ⟨rfl, rfl⟩ := Prod.mk.inj (Option.some.inj hstep)
        rcases hops with ⟨rfl, -⟩ | ⟨-, salt, nonce, hstore⟩
        · exact ⟨.inl (hsame hload rfl), rfl⟩
        · rw [FileVault.loadMap_stored hlaw hstore] at hload'
          exact ⟨.inr ⟨(Outcome.ok.inj hload').symm, by simp⟩, rfl⟩
      | some after =>
        obtain ⟨hafter, hpair⟩ := Option.ite_none_right_eq_some.mp hstep
        obtain ⟨rfl, rfl⟩ := Prod.mk.inj (Option.some.inj hpair)
        rcases hops with ⟨rfl, -⟩ | ⟨-, salt, nonce, hstore⟩
        · exact ⟨.inl (hsame hload hafter), rfl⟩
        · rcases FileVault.holds_interrupted hlaw hstore hafter with rfl | hnew | hlost
          · exact ⟨.inl (hsame hload rfl), rfl⟩
          · exact ⟨.inr ⟨(Option.some.inj ((hnew map').mp hload')).symm, by simp⟩, rfl⟩
          · exact absurd ((hlost map').mp hload') (by simp)
    · have hlost : ∀ map, vault.loadMap crates file ≠ .ok map := fun map hload => hmap ⟨map, hload⟩
      obtain ⟨-, -, rfl⟩ := FileVault.plain_of_ok hlost hcall
      cases cut with
      | none =>
        obtain ⟨rfl, rfl⟩ := Prod.mk.inj (Option.some.inj hstep)
        exact absurd hload' (hlost map')
      | some after =>
        obtain ⟨hafter, hpair⟩ := Option.ite_none_right_eq_some.mp hstep
        obtain ⟨rfl, rfl⟩ := Prod.mk.inj (Option.some.inj hpair)
        obtain rfl : after = file := hafter
        exact absurd hload' (hlost map')

/-- After the uses `os` the map, if there is one, holds each token that a start had, unless it was
written since. -/
def Remembered (crates : Crates) (vault : FileVault) (os : List VaultUsed) (file : Contents) : Prop :=
  ∀ pre mid refs t name token, os = pre ++ .started refs (.ok t) :: mid → HasToken refs t name token →
    (∀ o ∈ mid, ¬ o.Wrote name) → ∀ map, vault.loadMap crates file = .ok map → map.lookup name = some token

/-- A use that does not write a name keeps its value, as long as there is a map. -/
theorem lookup_of_use (hlaw : Lawful crates) {a : VaultUse}
    (hstep : (VaultUse.system crates vault).step file a = some (file', o))
    (hload' : vault.loadMap crates file' = .ok map') (hwrote : ¬ o.Wrote name) :
    ∃ map, vault.loadMap crates file = .ok map ∧
      ∀ token, map.lookup name = some token → map'.lookup name = some token := by
  cases a with
  | call c cut =>
    obtain ⟨⟨file₁, r⟩, hcall, heq⟩ := Option.map_eq_some_iff.mp hstep
    obtain ⟨rfl, rfl⟩ := Prod.mk.inj heq
    obtain ⟨map, hload, hmap, hrecord⟩ := map_of_call hlaw hcall hload'
    refine ⟨map, hload, fun token htoken => ?_⟩
    rcases hmap with rfl | ⟨rfl, hended⟩
    · exact htoken
    · have hnot : ¬ c.WritesTo name := fun hw => hwrote ⟨hrecord ▸ hw, hended⟩
      exact (lookup_meaning hnot).trans htoken
  | start refs admin operator viewer =>
    obtain ⟨⟨result, file₁⟩, hstart, heq⟩ := Option.map_eq_some_iff.mp hstep
    obtain ⟨rfl, rfl⟩ := Prod.mk.inj heq
    by_cases hmap : ∃ map, vault.loadMap crates file = .ok map
    · obtain ⟨map, hload⟩ := hmap
      obtain ⟨map₁, hload₁, hextends, -⟩ := grows_startTokens hlaw file map hload trivial result file₁ hstart
      obtain rfl : map₁ = map' := Outcome.ok.inj (hload₁.symm.trans hload')
      exact ⟨map, hload, hextends name⟩
    · obtain ⟨-, rfl⟩ := needsMap_startTokens file (fun map hload => hmap ⟨map, hload⟩) result file₁ hstart
      exact absurd ⟨map', hload'⟩ hmap

theorem started_ok (hlaw : Lawful crates) {a : VaultUse} {refs : TokenRefs} {t : TokenSet}
    (hstep : (VaultUse.system crates vault).step file a = some (file', .started refs (.ok t))) :
    ∃ map map', vault.loadMap crates file = .ok map ∧ vault.loadMap crates file' = .ok map' ∧ Extends map map' ∧
      (∀ name token, HasToken refs t name token → map'.lookup name = some token) ∧
      t.operator.isSome = refs.operator.isSome ∧ t.viewer.isSome = refs.viewer.isSome := by
  cases a with
  | call c cut =>
    obtain ⟨⟨file₁, r⟩, -, heq⟩ := Option.map_eq_some_iff.mp hstep
    simp at heq
  | start refs' admin operator viewer =>
    obtain ⟨⟨result, file₁⟩, hstart, heq⟩ := Option.map_eq_some_iff.mp hstep
    simp only [Prod.mk.injEq, VaultUsed.started.injEq] at heq
    obtain ⟨rfl, rfl, rfl⟩ := heq
    by_cases hmap : ∃ map, vault.loadMap crates file = .ok map
    · obtain ⟨map, hload⟩ := hmap
      obtain ⟨map', hload', hextends, hheld⟩ := grows_startTokens hlaw file map hload trivial _ file₁ hstart
      exact ⟨map, map', hload, hload', hextends, hheld t rfl⟩
    · obtain ⟨⟨e, he⟩, -⟩ := needsMap_startTokens file (fun map hload => hmap ⟨map, hload⟩) _ file₁ hstart
      simp at he

/-- **One use.** -/
theorem remembered_step (hlaw : Lawful crates) {a : VaultUse} (hi : Remembered crates vault os file)
    (hstep : (VaultUse.system crates vault).step file a = some (file', o)) :
    Remembered crates vault (os ++ [o]) file' := by
  intro pre mid refs t name token hos hhas hmid map' hload'
  rcases List.eq_nil_or_concat mid with rfl | ⟨mid, o', rfl⟩
  · obtain ⟨-, ho⟩ := List.append_inj' hos rfl
    obtain rfl := List.singleton_inj.mp ho
    obtain ⟨-, map₁, -, hload₁, -, hheld, -⟩ := started_ok hlaw hstep
    obtain rfl : map₁ = map' := Outcome.ok.inj (hload₁.symm.trans hload')
    exact hheld name token hhas
  · rw [List.concat_eq_append, ← List.cons_append, ← List.append_assoc] at hos
    obtain ⟨hbefore, ho⟩ := List.append_inj' hos rfl
    obtain rfl := List.singleton_inj.mp ho
    rw [List.concat_eq_append, List.forall_mem_append, List.forall_mem_singleton] at hmid
    obtain ⟨map, hload, hkeep⟩ := lookup_of_use hlaw hstep hload' hmid.2
    exact hkeep token (hi pre mid refs t name token hbefore hhas hmid.1 map hload)

theorem remembered_run (hlaw : Lawful crates) (hrun : (VaultUse.system crates vault).Run none os file) :
    Remembered crates vault os file := by
  refine Lts.Run.inv (P := Remembered crates vault) ?_ (fun _ _ _ _ _ _ hi hstep => remembered_step hlaw hi hstep) hrun
  intro pre mid refs t name token hos
  simp at hos

/-- The roles that two starts with the same references grant. -/
theorem tokenSet_eq {refs : TokenRefs} {t t' : TokenSet}
    (hsame : ∀ name x y, HasToken refs t name x → HasToken refs t' name y → x = y)
    (ho : t.operator.isSome = refs.operator.isSome) (ho' : t'.operator.isSome = refs.operator.isSome)
    (hv : t.viewer.isSome = refs.viewer.isSome) (hv' : t'.viewer.isSome = refs.viewer.isSome) : t = t' := by
  have hoptional {r x y : Option String} (hx : x.isSome = r.isSome) (hy : y.isSome = r.isSome)
      (h : ∀ r' x' y', r = some r' → x = some x' → y = some y' → x' = y') : x = y := by
    cases r with
    | none => rw [Option.isSome_eq_false_iff.mp hx |> Option.isNone_iff_eq_none.mp,
        Option.isSome_eq_false_iff.mp hy |> Option.isNone_iff_eq_none.mp]
    | some r =>
      obtain ⟨x', rfl⟩ := Option.isSome_iff_exists.mp hx
      obtain ⟨y', rfl⟩ := Option.isSome_iff_exists.mp hy
      rw [h r x' y' rfl rfl rfl]
  obtain ⟨a, o, v⟩ := t
  obtain ⟨a', o', v'⟩ := t'
  obtain rfl : a = a' := hsame _ a a' .admin .admin
  obtain rfl : o = o' := hoptional ho ho' fun r x y hr hx hy => hsame _ x y (.operator hr hx) (.operator hr hy)
  obtain rfl : v = v' := hoptional hv hv' fun r x y hr hx hy => hsame _ x y (.viewer hr hx) (.viewer hr hy)
  rfl

/-- **Tokens.** However the vault is used between two starts that succeed, whatever fails and
whatever is interrupted: a name that was not written in between has the same token, so the same
references grant the same roles. -/
theorem tokens_stay (hlaw : Lawful crates) {pre mid post : List VaultUsed} {refs refs' : TokenRefs} {t t' : TokenSet}
    (hrun : (VaultUse.system crates vault).Run none
      (pre ++ .started refs (.ok t) :: (mid ++ .started refs' (.ok t') :: post)) file) :
    (∀ name x y, HasToken refs t name x → HasToken refs' t' name y → (∀ o ∈ mid, ¬ o.Wrote name) → x = y) ∧
      (refs' = refs → (∀ name x, HasToken refs t name x → ∀ o ∈ mid, ¬ o.Wrote name) →
        ∀ presented, t'.roleFor presented = t.roleFor presented) := by
  have hos : pre ++ .started refs (.ok t) :: (mid ++ .started refs' (.ok t') :: post) =
      (pre ++ .started refs (.ok t) :: mid) ++ .started refs' (.ok t') :: post := by
    rw [List.append_assoc, List.cons_append]
  -- the second start, on the file that the uses before it have left
  obtain ⟨file₁, a, file₂, hbefore, hstep⟩ := hrun.split hos
  obtain ⟨map, map', hload, -, hextends, hheld, ho', hv'⟩ := started_ok hlaw hstep
  have hsame : ∀ name x y, HasToken refs t name x → HasToken refs' t' name y → (∀ o ∈ mid, ¬ o.Wrote name) → x = y := by
    intro name x y hx hy hmid
    have hold := remembered_run hlaw hbefore pre mid refs t name x rfl hx hmid map hload
    exact Option.some.inj ((hextends name x hold).symm.trans (hheld name y hy))
  refine ⟨hsame, ?_⟩
  rintro rfl hmid presented
  -- the first start
  obtain ⟨file₀, a₀, file₀', -, hfirst⟩ := hrun.split rfl
  obtain ⟨-, -, -, -, -, -, ho, hv⟩ := started_ok hlaw hfirst
  have hset : t = t' := tokenSet_eq (fun name x y hx hy => hsame name x y hx hy (hmid name x hx)) ho ho' hv hv'
  rw [hset]

end

/-! ### Two starts -/

/-- Two secrets are set, and the server is started twice with them; in between one is read, and a
write fails. -/
def twoStarts : List VaultUse :=
  let fresh : Entropy := ⟨.error "none", zeroSalt, oneSecret.nonce⟩
  let refs : TokenRefs := ⟨"vault:a", some " b ", none⟩
  [.call (.set "a" "1" zeroSalt oneSecret.nonce) none, .call (.set "b" "2" zeroSalt twoSecrets.nonce) none,
    .start refs fresh fresh fresh, .call (.get "a") none, .call (.set "c" "3" zeroSalt oneSecret.nonce) none,
    .start refs fresh fresh fresh]

/-- The name a call writes, or the references and the tokens of a start. -/
def VaultUsed.view : VaultUsed → Option String ⊕ List (Option String)
  | .called ⟨.set n .., _⟩ | .called ⟨.delete n .., _⟩ => .inl (some n)
  | .called _ => .inl none
  | .started refs (.ok t) => .inr [some refs.admin, refs.operator, refs.viewer, some t.admin, t.operator, t.viewer]
  | .started _ (.error _) => .inr []

theorem VaultUsed.not_wrote {o : VaultUsed} {n : Option String} {name : String} (h : o.view = .inl n)
    (hn : n ≠ some name) : ¬ o.Wrote name := by
  rintro hwrote
  cases o with
  | started refs result => exact hwrote
  | called r =>
    obtain ⟨c, ending⟩ := r
    obtain ⟨hname, -⟩ := hwrote
    cases c with
    | set n' => exact hn (by rw [← Sum.inl.inj h]; exact congrArg some hname)
    | delete n' => exact hn (by rw [← Sum.inl.inj h]; exact congrArg some hname)
    | get => exact hname
    | list => exact hname
    | resolve => exact hname

theorem VaultUsed.eq_started {o : VaultUsed} {refs : TokenRefs} {t : TokenSet}
    (h : o.view = (VaultUsed.started refs (.ok t)).view) : o = .started refs (.ok t) := by
  obtain ⟨admin, operator, viewer⟩ := refs
  cases o with
  | called r =>
    obtain ⟨c, ending⟩ := r
    cases c <;> simp [view] at h
  | started refs' result =>
    obtain ⟨admin', operator', viewer'⟩ := refs'
    cases result with
    | error e => simp [view] at h
    | ok t' =>
      obtain ⟨a, o, v⟩ := t
      obtain ⟨a', o', v'⟩ := t'
      simp only [view, Sum.inr.injEq, List.cons.injEq, Option.some.injEq, and_true] at h
      obtain ⟨rfl, rfl, rfl, rfl, rfl, rfl⟩ := h
      rfl

/-- The tokens stay. -/
theorem tokens_stay_twoStarts : ∃ pre mid refs t t' file, (VaultUse.system tableCrates pwVault).Run none
      (pre ++ .started refs (.ok t) :: (mid ++ .started refs (.ok t') :: [])) file ∧ t.roleFor "2" = some .operator ∧
    ∀ presented, t'.roleFor presented = t.roleFor presented := by
  let refs : TokenRefs := ⟨"vault:a", some " b ", none⟩
  let t : TokenSet := ⟨"1", some "2", none⟩
  have hexec : ((VaultUse.system tableCrates pwVault).exec none twoStarts).map (fun r => decide
      (r.2.map VaultUsed.view = [.inl (some "a"), .inl (some "b"), (VaultUsed.started refs (.ok t)).view, .inl none,
        .inl (some "c"), (VaultUsed.started refs (.ok t)).view])) = some true := by
    decide +kernel
  obtain ⟨⟨file, os⟩, hrun, hviews⟩ := Option.map_eq_some_iff.mp hexec
  simp only [decide_eq_true_eq, List.map_eq_cons_iff, List.map_eq_nil_iff] at hviews
  obtain ⟨o₁, _, rfl, -, o₂, _, rfl, -, o₃, _, rfl, h₃, o₄, _, rfl, h₄, o₅, _, rfl, h₅, o₆, _, rfl, h₆, rfl⟩ := hviews
  obtain rfl := VaultUsed.eq_started h₃
  obtain rfl := VaultUsed.eq_started h₆
  have hrun' : (VaultUse.system tableCrates pwVault).Run none
      ([o₁, o₂] ++ .started refs (.ok t) :: ([o₄, o₅] ++ .started refs (.ok t) :: [])) file := .of_exec hrun
  have hquiet : ∀ name, name = "a" ∨ name = "b" → ∀ o ∈ [o₄, o₅], ¬ o.Wrote name := by
    intro name hname
    refine List.forall_mem_cons.mpr ⟨VaultUsed.not_wrote h₄ (by simp), List.forall_mem_singleton.mpr ?_⟩
    refine VaultUsed.not_wrote h₅ ?_
    rcases hname with rfl | rfl
    · decide
    · decide
  refine ⟨[o₁, o₂], [o₄, o₅], refs, t, t, file, hrun', by decide, ?_⟩
  refine (tokens_stay lawful_tableCrates hrun').2 rfl fun name x hx => hquiet name ?_
  cases hx with
  | admin => exact .inl (by decide +kernel)
  | operator hr _ =>
    obtain rfl := Option.some.inj hr
    exact .inr (by decide +kernel)
  | viewer hr _ => simp [refs] at hr

end Sherwood.Secrets
