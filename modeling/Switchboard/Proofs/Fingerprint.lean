import Mathlib.Data.Nat.Notation
import Switchboard.Fingerprint

/-!
# What a fingerprint tells apart

A fingerprint is the digest of seven fields with bars between them.  The fields are
not marked where they hold bars themselves, so that two identities can have the same
text, and with it the same fingerprint.

## Main definitions

* `pieces` — a text, cut at its bars.
* `SameIdentity` — the fields agree.
* `Collision` — two texts that the digest does not tell apart.
* `Plain` — no field holds a bar.

## Main results

* `key_eq_iff` — which identities have the same text.
* `Plain.sameIdentity` — a text without other bars belongs to one identity.
* `exists_other` — any other text belongs to several.
* `of_eq_iff` — **which identities have the same fingerprint.**
-/

namespace Switchboard.Fingerprint

variable {e e' : Endpoint} {c c' : Connection}

/-! ### Cutting a text at its bars -/

/-- A text, cut at its bars. -/
def pieces (s : String) : List (List Char) := s.toList.splitOn '|'

/-- A text without bars is one piece. -/
theorem pieces_of_notMem {s : String} (h : '|' ∉ s.toList) : pieces s = [s.toList] :=
  List.splitOnP_eq_singleton fun _ hx => beq_eq_false_iff_ne.mpr fun heq => h (heq ▸ hx)

theorem pieces_ne_nil (s : String) : pieces s ≠ [] := List.splitOn_ne_nil _ _

/-- The pieces of texts with bars between them are those of each. -/
theorem splitOn_intercalate {ss : List (List Char)} (h : ss ≠ []) :
    (List.intercalate ['|'] ss).splitOn '|' = ss.flatMap (List.splitOn '|') := by
  induction ss with
  | nil => exact absurd rfl h
  | cons s ss ih =>
    cases ss with
    | nil => simp
    | cons t ss =>
      rw [List.intercalate_cons_cons, List.append_assoc, List.singleton_append, List.flatMap_cons,
        ← ih (List.cons_ne_nil t ss)]
      exact List.splitOnP_append_cons _ _ (beq_self_eq_true _)

theorem pieces_key (e : Endpoint) (c : Connection) :
    pieces (key e c) = (fields e c).flatMap pieces := by
  have hne : (fields e c).map String.toList ≠ [] := nofun
  rw [pieces, key, String.toList_intercalate]
  exact (splitOn_intercalate hne).trans
    (List.flatMap_map String.toList (List.splitOn '|') (fields e c))

/-- **Two identities have the same text** exactly if their fields, cut at their own bars,
have the same pieces. -/
theorem key_eq_iff :
    key e c = key e' c' ↔ (fields e c).flatMap pieces = (fields e' c').flatMap pieces := by
  rw [← pieces_key, ← pieces_key]
  refine ⟨congrArg pieces, fun h => String.toList_inj.mp ?_⟩
  have hjoin := congrArg (List.intercalate ['|']) h
  rwa [pieces, pieces, List.intercalate_splitOn, List.intercalate_splitOn] at hjoin

/-! ### Fields without bars -/

/-- No field holds a bar. -/
def Plain (e : Endpoint) (c : Connection) : Prop := ∀ s ∈ fields e c, '|' ∉ s.toList

theorem length_le_flatMap_pieces (ss : List String) : ss.length ≤ (ss.flatMap pieces).length := by
  induction ss with
  | nil => exact Nat.le_refl 0
  | cons s ss ih =>
    have hpos := List.length_pos_iff.mpr (pieces_ne_nil s)
    rw [List.flatMap_cons, List.length_append, List.length_cons]
    omega

theorem flatMap_pieces_of_notMem {ss : List String} (h : ∀ s ∈ ss, '|' ∉ s.toList) :
    ss.flatMap pieces = ss.map String.toList := by
  rw [List.map_eq_flatMap, List.flatMap_def, List.flatMap_def]
  exact congrArg List.flatten (List.map_congr_left fun s hs => pieces_of_notMem (h s hs))

/-- A text that is one piece is that piece. -/
theorem toList_of_pieces {s : String} {cs : List Char} (h : pieces s = [cs]) : s.toList = cs := by
  have hjoin := congrArg (List.intercalate ['|']) h
  rwa [pieces, List.intercalate_splitOn, List.intercalate_singleton] at hjoin

/-- As many texts with the same pieces as texts without bars are those texts. -/
theorem eq_of_flatMap_pieces {ss : List String} (h : ∀ s ∈ ss, '|' ∉ s.toList) :
    ∀ {ts : List String}, ts.length = ss.length → ts.flatMap pieces = ss.flatMap pieces →
      ts = ss := by
  induction ss with
  | nil => exact fun hlength _ => List.length_eq_zero_iff.mp hlength
  | cons s ss ih =>
    rintro (_ | ⟨t, ts⟩) hlength hpieces
    · cases hlength
    · obtain ⟨hs, hss⟩ := List.forall_mem_cons.mp h
      have hlength : ts.length = ss.length := Nat.succ.inj hlength
      obtain ⟨p, ps, ht⟩ := List.exists_cons_of_ne_nil (pieces_ne_nil t)
      rw [List.flatMap_cons, List.flatMap_cons, pieces_of_notMem hs, ht, List.cons_append,
        List.singleton_append, List.cons.injEq] at hpieces
      obtain ⟨rfl, hrest⟩ := hpieces
      -- there are no pieces to spare for another one of `t`
      have hnil : ps = [] := by
        have hcount := congrArg List.length hrest
        have hle := length_le_flatMap_pieces ts
        rw [flatMap_pieces_of_notMem hss, List.length_append, List.length_map] at hcount
        exact List.length_eq_zero_iff.mp (by omega)
      subst hnil
      rw [ih hss hlength hrest, String.toList_inj.mp (toList_of_pieces ht)]

/-- The fields of two identities agree; a path that is not given counts as empty. -/
structure SameIdentity (e : Endpoint) (c : Connection) (e' : Endpoint) (c' : Connection) :
    Prop where
  /-- The names agree. -/
  name : e.friendlyName = e'.friendlyName
  /-- The addresses agree. -/
  url : e.url = e'.url
  /-- The protocols agree. -/
  protocol : e.protocol = e'.protocol
  /-- Both or neither take any certificate. -/
  skip : c.insecureSkipVerify = c'.insecureSkipVerify
  /-- The paths of the client certificates agree. -/
  cert : c.tlsCertPath.getD "" = c'.tlsCertPath.getD ""
  /-- The paths of their keys agree. -/
  key : c.tlsKeyPath.getD "" = c'.tlsKeyPath.getD ""
  /-- The paths of the certificates to trust agree. -/
  ca : c.caCertPath.getD "" = c'.caCertPath.getD ""

theorem name_inj {p q : Protocol} : p.name = q.name ↔ p = q := by
  refine ⟨fun h => ?_, congrArg _⟩
  have hof := congrArg Protocol.ofName? h
  rwa [Protocol.ofName?_name, Protocol.ofName?_name, Option.some.injEq] at hof

theorem fields_eq_iff : fields e c = fields e' c' ↔ SameIdentity e c e' c' := by
  have hflag : ∀ b b' : Bool,
      ((if b then "true" else "false") = if b' then "true" else "false") ↔ b = b' := by decide
  constructor
  · intro h
    simp only [fields, List.cons.injEq, name_inj, hflag] at h
    obtain ⟨hname, hurl, hprotocol, hskip, hcert, hkey, hca, -⟩ := h
    exact ⟨hname, hurl, hprotocol, hskip, hcert, hkey, hca⟩
  · intro h
    simp only [fields, h.name, h.url, h.protocol, h.skip, h.cert, h.key, h.ca]

/-- A text without bars in its fields belongs to one identity. -/
theorem Plain.sameIdentity (h : Plain e c) (hkey : key e' c' = key e c) :
    SameIdentity e' c' e c :=
  fields_eq_iff.mp (eq_of_flatMap_pieces h rfl (key_eq_iff.mp hkey))

/-! ### Bars inside the fields -/

theorem pieces_append_bar (s t : List Char) :
    pieces (String.ofList (s ++ '|' :: t)) = pieces (String.ofList s) ++ pieces (String.ofList t) := by
  simp only [pieces, String.toList_ofList]
  exact List.splitOnP_append_cons _ _ (beq_self_eq_true _)

/-- Where one of two neighbours holds a bar, the bar between them can be moved. -/
theorem exists_shift {s t : String} (h : '|' ∈ s.toList ∨ '|' ∈ t.toList) :
    ∃ s' t' : String, s' ≠ s ∧
      ∀ xs, pieces s' ++ (pieces t' ++ xs) = pieces s ++ (pieces t ++ xs) := by
  rcases h with h | h
  · obtain ⟨a, b, hs⟩ := List.append_of_mem h
    have hs : s = String.ofList (a ++ '|' :: b) := by rw [← hs, String.ofList_toList]
    refine ⟨String.ofList a, String.ofList (b ++ '|' :: t.toList), fun heq => ?_, fun xs => ?_⟩
    · have hlength := congrArg (fun u : String => u.toList.length) (heq.trans hs)
      simp at hlength
    · rw [hs, pieces_append_bar, pieces_append_bar, String.ofList_toList, List.append_assoc,
        List.append_assoc]
  · obtain ⟨a, b, ht⟩ := List.append_of_mem h
    have ht : t = String.ofList (a ++ '|' :: b) := by rw [← ht, String.ofList_toList]
    refine ⟨String.ofList (s.toList ++ '|' :: a), String.ofList b, fun heq => ?_, fun xs => ?_⟩
    · have hlength := congrArg (fun u : String => u.toList.length) heq
      simp at hlength
    · rw [ht, pieces_append_bar, pieces_append_bar, String.ofList_toList, List.append_assoc,
        List.append_assoc]

/-- **A text with bars in its fields belongs to several identities.** -/
theorem exists_other (h : ¬ Plain e c) :
    ∃ e' c', key e' c' = key e c ∧ ¬ SameIdentity e' c' e c := by
  have hprotocol : '|' ∉ e.protocol.name.toList := by cases e.protocol <;> decide
  have hskip : '|' ∉ (if c.insecureSkipVerify then "true" else "false").toList := by
    cases c.insecureSkipVerify <;> decide
  have hcases : ('|' ∈ e.friendlyName.toList ∨ '|' ∈ e.url.toList) ∨
      ('|' ∈ (c.tlsCertPath.getD "").toList ∨ '|' ∈ (c.tlsKeyPath.getD "").toList) ∨
      ('|' ∈ (c.tlsKeyPath.getD "").toList ∨ '|' ∈ (c.caCertPath.getD "").toList) := by
    refine Classical.byContradiction fun hno => h fun s hs => ?_
    simp only [not_or] at hno
    obtain ⟨⟨hname, hurl⟩, ⟨hcert, hkey⟩, -, hca⟩ := hno
    simp only [fields, List.mem_cons, List.not_mem_nil, or_false] at hs
    rcases hs with rfl | rfl | rfl | rfl | rfl | rfl | rfl <;> assumption
  rcases hcases with h | h | h
  · -- between the name and the address
    obtain ⟨s, t, hne, hpieces⟩ := exists_shift h
    refine ⟨{ e with friendlyName := s, url := t }, c, key_eq_iff.mpr ?_, fun hsame =>
      hne hsame.name⟩
    simp only [fields, List.flatMap_cons, hpieces]
  · -- between the path of the client certificate and that of its key
    obtain ⟨s, t, hne, hpieces⟩ := exists_shift h
    refine ⟨e, { c with tlsCertPath := some s, tlsKeyPath := some t }, key_eq_iff.mpr ?_,
      fun hsame => hne hsame.cert⟩
    simp only [fields, List.flatMap_cons, Option.getD_some, hpieces]
  · -- between the path of the key and that of the certificates to trust
    obtain ⟨s, t, hne, hpieces⟩ := exists_shift h
    refine ⟨e, { c with tlsKeyPath := some s, caCertPath := some t }, key_eq_iff.mpr ?_,
      fun hsame => hne hsame.key⟩
    simp only [fields, List.flatMap_cons, Option.getD_some, hpieces]

/-! ### Digests -/

/-- Two texts that the digest does not tell apart. -/
def Collision (s t : String) : Prop :=
  s ≠ t ∧ Digest.sha256 (Text.Utf8.encode s) = Digest.sha256 (Text.Utf8.encode t)

theorem value?_digit : ∀ n : Fin 16, Text.Hex.value? (Text.Hex.digit n.val) = some n.val := by
  decide

theorem decode?_encode (bs : Bytes) : Text.Hex.decode? (Text.Hex.encode bs).toList = some bs := by
  rw [Text.Hex.encode, String.toList_ofList]
  induction bs with
  | nil => rfl
  | cons b bs ih =>
    have hb := b.toNat_lt
    have hhigh := value?_digit ⟨b.toNat / 16, by omega⟩
    have hlow := value?_digit ⟨b.toNat % 16, by omega⟩
    have hbyte : UInt8.ofNat (16 * (b.toNat / 16) + b.toNat % 16) = b := by
      rw [Nat.div_add_mod, UInt8.ofNat_toNat]
    rw [List.flatMap_cons, Text.Hex.encodeByte, List.cons_append, List.cons_append,
      List.nil_append, Text.Hex.decode?, hhigh, hlow, ih]
    exact congrArg (fun b => some (b :: bs)) hbyte

/-- **Which identities have the same fingerprint**: those with the same text, and those
whose texts the digest does not tell apart. -/
theorem of_eq_iff :
    Fingerprint.of e c = Fingerprint.of e' c' ↔
      key e c = key e' c' ∨ Collision (key e c) (key e' c') := by
  constructor
  · intro h
    have hdigits := congrArg (fun f => Text.Hex.decode? f.digits.toList) h
    simp only [Fingerprint.of, decode?_encode, Option.some.injEq] at hdigits
    by_cases hkey : key e c = key e' c'
    · exact .inl hkey
    · exact .inr ⟨hkey, hdigits⟩
  · rintro (hkey | ⟨-, hdigest⟩)
    · rw [Fingerprint.of, Fingerprint.of, hkey]
    · rw [Fingerprint.of, Fingerprint.of, hdigest]

end Switchboard.Fingerprint
