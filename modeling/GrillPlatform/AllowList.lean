import GrillPlatform.Text.Url
import GrillPlatform.Tfvars

/-! The addresses that may reach a GPU VM by SSH: what `admin_cidrs` gets from the URL of the
orchestrator. -/

namespace GrillPlatform
open Url

/-- `\d{1,3}` -/
structure IsGroup (g : List Char) : Prop where
  short : g.length ≤ 3
  ne_nil : g ≠ []
  decimal : ∀ c ∈ g, isDecimal c = true

/-- The digits do not go on, or there are three already. -/
def Stops (g rest : List Char) : Prop := g.length = 3 ∨ ∀ c ∈ rest.head?, isDecimal c = false

/-- Four groups of digits right behind `http://` or `https://`. -/
def Leads (url ip : String) : Prop :=
  ∃ a b c d rest, IsGroup a ∧ IsGroup b ∧ IsGroup c ∧ IsGroup d ∧ Stops d rest ∧
    ip.toList = quad a b c d ∧
    (url.toList = "http://".toList ++ (ip.toList ++ rest) ∨
      url.toList = "https://".toList ++ (ip.toList ++ rest))

theorem stops_takeWhile (p : Char → Bool) (n : Nat) (text : List Char) :
    ((text.take n).takeWhile p).length = n ∨
      ∀ c ∈ (text.drop ((text.take n).takeWhile p).length).head?, p c = false := by
  induction n generalizing text with
  | zero => exact .inl rfl
  | succ n ih =>
    cases text with
    | nil => exact .inr fun c hc => nomatch hc
    | cons x xs =>
      rw [List.take_succ_cons, List.takeWhile_cons]
      cases hx : p x with
      | true =>
        rw [if_pos rfl, List.length_cons, List.drop_succ_cons]
        exact (ih xs).imp_left (congrArg (· + 1))
      | false =>
        refine .inr fun c hc => ?_
        cases hc
        exact hx

theorem takeWhile_take {p : Char → Bool} {g rest : List Char} {n : Nat} (hn : g.length ≤ n)
    (hg : ∀ c ∈ g, p c = true) (hrest : g.length = n ∨ ∀ c ∈ rest.head?, p c = false) :
    ((g ++ rest).take n).takeWhile p = g := by
  induction g generalizing n with
  | nil =>
    rcases hrest with rfl | hrest
    · rfl
    · cases rest with
      | nil => rw [List.append_nil, List.take_nil, List.takeWhile_nil]
      | cons c rest =>
        cases n with
        | zero => rfl
        | succ n => exact List.takeWhile_cons_of_neg (by simp [hrest c rfl])
  | cons x g ih =>
    rcases n with _ | n
    · exact absurd hn (Nat.not_succ_le_zero _)
    · rw [List.cons_append, List.take_succ_cons,
        List.takeWhile_cons_of_pos (hg x List.mem_cons_self)]
      exact congrArg (x :: ·) (ih (Nat.le_of_succ_le_succ hn)
        (fun c hc => hg c (List.mem_cons_of_mem _ hc)) (hrest.imp_left Nat.succ.inj))

theorem octet_iff {text g rest : List Char} :
    octet text = some (g, rest) ↔ text = g ++ rest ∧ IsGroup g ∧ Stops g rest := by
  unfold octet
  dsimp only
  constructor
  · intro h
    split at h
    · cases h
    · rename_i hne
      cases h
      have hprefix : (text.take 3).takeWhile isDecimal <+: text :=
        (List.takeWhile_prefix _).trans (List.take_prefix 3 text)
      have hshort := (List.takeWhile_prefix isDecimal).length_le.trans (List.length_take_le 3 text)
      exact ⟨(List.prefix_iff_eq_append.1 hprefix).symm,
        ⟨hshort, hne, fun c hc => List.mem_takeWhile_imp hc⟩, stops_takeWhile isDecimal 3 text⟩
  · rintro ⟨rfl, hg, hstops⟩
    rw [takeWhile_take hg.short hg.decimal hstops, if_neg hg.ne_nil, List.drop_left]

theorem dropPrefix_iff {p text rest : List Char} :
    dropPrefix p text = some rest ↔ text = p ++ rest := by
  unfold dropPrefix
  split
  · rename_i h
    obtain ⟨t, rfl⟩ := List.isPrefixOf_iff_prefix.1 h
    rw [List.drop_left, Option.some_inj, List.append_cancel_left_eq]
  · rename_i h
    refine iff_of_false (fun h => nomatch h) ?_
    rintro rfl
    exact h (List.isPrefixOf_iff_prefix.2 (List.prefix_append _ _))

theorem octet_dot {g : List Char} (hg : IsGroup g) (rest : List Char) :
    octet (g ++ '.' :: rest) = some (g, '.' :: rest) :=
  octet_iff.2 ⟨rfl, hg, .inr fun c hc => by
    cases hc
    decide⟩

theorem octet_dot_inv {text g dot rest : List Char} (hg : octet text = some (g, dot))
    (hdot : dropPrefix ['.'] dot = some rest) : IsGroup g ∧ text = g ++ '.' :: rest := by
  obtain ⟨rfl, hgroup, -⟩ := octet_iff.1 hg
  exact ⟨hgroup, by rw [dropPrefix_iff.1 hdot]; rfl⟩

theorem scheme_iff {text rest : List Char} :
    (∃ r, dropPrefix "http".toList text = some r ∧
      dropPrefix "://".toList ((dropPrefix ['s'] r).getD r) = some rest) ↔
      text = "http://".toList ++ rest ∨ text = "https://".toList ++ rest := by
  have hhttp : "http://".toList = "http".toList ++ "://".toList := by decide
  have hhttps : "https://".toList = "http".toList ++ 's' :: "://".toList := by decide
  have hcolon : dropPrefix ['s'] ("://".toList ++ rest) = none := rfl
  constructor
  · rintro ⟨r, hr, hrest⟩
    rw [dropPrefix_iff] at hr hrest
    subst hr
    cases hs : dropPrefix ['s'] r with
    | none =>
      rw [hs] at hrest
      exact .inl (by rw [hhttp, List.append_assoc, ← hrest]; rfl)
    | some r' =>
      rw [hs, Option.getD_some] at hrest
      refine .inr ?_
      rw [dropPrefix_iff.1 hs, hrest, hhttps, List.append_assoc]
      rfl
  · rintro (rfl | rfl)
    · refine ⟨"://".toList ++ rest, dropPrefix_iff.2 (by rw [hhttp, List.append_assoc]), ?_⟩
      rw [hcolon]
      exact dropPrefix_iff.2 rfl
    · refine ⟨'s' :: ("://".toList ++ rest),
        dropPrefix_iff.2 (by rw [hhttps, List.append_assoc]; rfl), ?_⟩
      exact dropPrefix_iff.2 rfl

theorem extractIp_iff {url ip : String} : extractIp url = some ip ↔ Leads url ip := by
  constructor
  · intro h
    -- the scheme, and four groups with dots between them
    obtain ⟨r, hr, h⟩ := Option.bind_eq_some_iff.1 h
    obtain ⟨r₀, hr₀, h⟩ := Option.bind_eq_some_iff.1 h
    obtain ⟨⟨a, ra⟩, ha, h⟩ := Option.bind_eq_some_iff.1 h
    obtain ⟨r₁, hr₁, h⟩ := Option.bind_eq_some_iff.1 h
    obtain ⟨⟨b, rb⟩, hb, h⟩ := Option.bind_eq_some_iff.1 h
    obtain ⟨r₂, hr₂, h⟩ := Option.bind_eq_some_iff.1 h
    obtain ⟨⟨c, rc⟩, hc, h⟩ := Option.bind_eq_some_iff.1 h
    obtain ⟨r₃, hr₃, h⟩ := Option.bind_eq_some_iff.1 h
    obtain ⟨⟨d, rest⟩, hd, h⟩ := Option.bind_eq_some_iff.1 h
    cases h
    obtain ⟨hga, rfl⟩ := octet_dot_inv ha hr₁
    obtain ⟨hgb, rfl⟩ := octet_dot_inv hb hr₂
    obtain ⟨hgc, rfl⟩ := octet_dot_inv hc hr₃
    obtain ⟨rfl, hgd, hstops⟩ := octet_iff.1 hd
    have hscheme := scheme_iff.1 ⟨r, hr, hr₀⟩
    have hquad : a ++ '.' :: b ++ '.' :: c ++ '.' :: d = quad a b c d := by simp [quad]
    refine ⟨a, b, c, d, rest, hga, hgb, hgc, hgd, hstops, ?_, ?_⟩
    · rw [String.toList_ofList, hquad]
    · rw [String.toList_ofList]
      simpa using hscheme
  · rintro ⟨a, b, c, d, rest, hga, hgb, hgc, hgd, hstops, hip, hurl⟩
    have hquad : quad a b c d ++ rest = a ++ '.' :: (b ++ '.' :: (c ++ '.' :: (d ++ rest))) := by
      simp [quad]
    rw [hip, hquad] at hurl
    obtain ⟨r, hr, hr₀⟩ := scheme_iff.2 hurl
    have hd : octet (d ++ rest) = some (d, rest) := octet_iff.2 ⟨rfl, hgd, hstops⟩
    have hdot : ∀ text, dropPrefix ['.'] ('.' :: text) = some text := fun _ => rfl
    have hjoin : a ++ '.' :: b ++ '.' :: c ++ '.' :: d = quad a b c d := by simp [quad]
    unfold extractIp
    simp only [hr, hr₀, octet_dot hga, octet_dot hgb, octet_dot hgc, hd, hdot, Option.bind_eq_bind,
      Option.bind_some, hjoin, ← hip, String.ofList_toList]
    rfl

/-! ## The host -/

def HostIs (url ip : String) : Prop := IsIpv4 ip.toList ∧ host url.toList = some ip.toList

theorem isDecimal_of_isDigit {c : Char} (h : c.isDigit = true) : isDecimal c = true := by
  unfold Char.isDigit at h
  simp only [Bool.and_eq_true, decide_eq_true_eq] at h
  have hlow : 0x30 ≤ c.toNat := h.1
  have hhigh : c.toNat ≤ 0x39 := h.2
  exact List.any_eq_true.2 ⟨0x30, List.mem_cons_self, decide_eq_true ⟨hlow, by omega⟩⟩

theorem isGroup_byte (n : Fin 256) : IsGroup (Nat.toDigits 10 n) :=
  ⟨length_toDigits_byte n, Nat.toDigits_ne_nil,
    fun _ hc => isDecimal_of_isDigit (isDigit_toDigits hc)⟩

theorem leads_of_host {url ip : String} (h : HostIs url ip)
    (hscheme : scheme url.toList = "http".toList ∨ scheme url.toList = "https".toList)
    (huser : ∀ a, authority url.toList = some a → '@' ∉ a) : Leads url ip := by
  have hbracket : ∀ cs, ip.toList ≠ '[' :: cs := fun cs hcs => by
    have hc := h.1.all '[' (hcs ▸ List.mem_cons_self)
    revert hc
    decide
  obtain ⟨rest, hurl, hrest⟩ := host_eq h.2 huser hbracket
  obtain ⟨i, j, k, l, hquad⟩ := h.1
  have hstops : Stops (Nat.toDigits 10 l) rest := .inr fun c hc => by
    have hend := hrest c hc
    simp only [endsAuthority, Bool.or_eq_true, decide_eq_true_eq] at hend
    rcases hend with rfl | (rfl | rfl) | rfl <;> decide
  refine ⟨_, _, _, _, rest, isGroup_byte i, isGroup_byte j, isGroup_byte k, isGroup_byte l, hstops,
    hquad, ?_⟩
  refine hscheme.imp (fun hs => ?_) fun hs => ?_
  · rw [hs] at hurl
    exact hurl
  · rw [hs] at hurl
    exact hurl

/-- The items of a comma-separated setting: trimmed, and without the empty ones. -/
def Items (setting : String) (items : List String) : Prop :=
  ∃ parts : List (List Char), parts ≠ [] ∧ (∀ part ∈ parts, ',' ∉ part) ∧
    setting.toList = [','].intercalate parts ∧
    items = (parts.map fun part => strip (String.ofList part)).filter (· ≠ "")

theorem items_iff {setting : String} {items : List String} :
    Items setting items ↔ items = commaList setting := by
  constructor
  · rintro ⟨parts, hne, hcomma, hsetting, rfl⟩
    unfold commaList
    rw [hsetting, List.splitOn_intercalate _ hcomma hne]
  · rintro rfl
    exact ⟨setting.toList.splitOn ',', List.splitOn_ne_nil _ _,
      fun part hpart => Text.not_mem_of_mem_splitOn hpart, (List.intercalate_splitOn ',').symm, rfl⟩

/-- `admin_cidrs` in the lines of the file. -/
def Written (cfg : Config) (cidrs : List String) : Prop :=
  ∀ lenient run scenario, listVar "admin_cidrs" cidrs ∈ varLines lenient cfg run scenario

theorem written_iff {cfg : Config} {cidrs : List String} :
    Written cfg cidrs ↔ cidrs = adminCidrs cfg := by
  have hcode : Written cfg (adminCidrs cfg) := fun _ _ _ => by simp [varLines]
  constructor
  · intro h
    -- the names of the lines are all different
    have hnodup : ((varLines true cfg Sample.run "").map fun l => l.assigns.name).Nodup := by
      rw [names_varLines]
      exact nodup_names
    have hline :=
      List.inj_on_of_nodup_map hnodup (h true Sample.run "") (hcode true Sample.run "") rfl
    have hvalue := congrArg (fun l => l.assigns.value) hline
    exact List.map_injective_iff.2 (fun _ _ => String.toList_inj.1) (Hcl.Value.list.inj hvalue)
  · rintro rfl
    exact hcode

/-- What is written is the setting, and the address of the orchestrator where its URL has one. -/
def SshAllowList (cfg : Config) : Prop :=
  ∃ cidrs items, Written cfg cidrs ∧ Items cfg.adminCidrs items ∧
  (∀ ip, HostIs cfg.orchestratorUrl ip →
    cidrs = if ip ++ "/32" ∈ items then items else items ++ [ip ++ "/32"]) ∧
  ((∀ ip, ¬ HostIs cfg.orchestratorUrl ip) → cidrs = items)

/-- The addresses that are not in the setting are where the pattern looks for them. -/
structure PlainUrl (cfg : Config) : Prop where
  /-- Four groups of digits right behind `http://` or `https://` are the whole host, a literal. -/
  leading : ∀ ip, Leads cfg.orchestratorUrl ip → ip ++ "/32" ∈ commaList cfg.adminCidrs ∨
    HostIs cfg.orchestratorUrl ip
  /-- A host that is a literal comes right behind `http://` or `https://`. -/
  literal : ∀ ip, HostIs cfg.orchestratorUrl ip → ip ++ "/32" ∈ commaList cfg.adminCidrs ∨
    (scheme cfg.orchestratorUrl.toList = "http".toList ∨
      scheme cfg.orchestratorUrl.toList = "https".toList) ∧
    ((∀ a, authority cfg.orchestratorUrl.toList = some a → '@' ∉ a) ∨
      Leads cfg.orchestratorUrl ip)

section
variable {cfg : Config} {ip : String}

theorem adminCidrs_of_leads (h : Leads cfg.orchestratorUrl ip) : adminCidrs cfg =
    if ip ++ "/32" ∈ commaList cfg.adminCidrs then commaList cfg.adminCidrs
    else commaList cfg.adminCidrs ++ [ip ++ "/32"] := by
  unfold adminCidrs
  rw [extractIp_iff.2 h]

theorem adminCidrs_of_not_leads (h : ∀ ip, ¬ Leads cfg.orchestratorUrl ip) :
    adminCidrs cfg = commaList cfg.adminCidrs := by
  unfold adminCidrs
  cases hip : extractIp cfg.orchestratorUrl with
  | none => rfl
  | some ip => exact absurd (extractIp_iff.1 hip) (h ip)

theorem scheme_of_leads (h : Leads cfg.orchestratorUrl ip) :
    scheme cfg.orchestratorUrl.toList = "http".toList ∨
      scheme cfg.orchestratorUrl.toList = "https".toList := by
  obtain ⟨a, b, c, d, rest, -, -, -, -, -, -, hurl⟩ := h
  refine hurl.imp (fun hurl => ?_) fun hurl => ?_
  · rw [hurl]
    rfl
  · rw [hurl]
    rfl

theorem added_eq {items : List String} {ip' : String} (hnew : ip ++ "/32" ∉ items)
    (h : (if ip ++ "/32" ∈ items then items else items ++ [ip ++ "/32"]) =
      if ip' ++ "/32" ∈ items then items else items ++ [ip' ++ "/32"]) : ip' = ip := by
  rw [if_neg hnew] at h
  split at h
  · exact absurd h (by simp)
  · have hlast := List.append_cancel_left h
    simp only [List.cons.injEq, and_true] at hlast
    exact ((String.append_left_inj "/32").1 hlast).symm

theorem sshAllowList_eq : SshAllowList cfg ↔
    (∀ ip, HostIs cfg.orchestratorUrl ip → adminCidrs cfg =
      if ip ++ "/32" ∈ commaList cfg.adminCidrs then commaList cfg.adminCidrs
      else commaList cfg.adminCidrs ++ [ip ++ "/32"]) ∧
    ((∀ ip, ¬ HostIs cfg.orchestratorUrl ip) → adminCidrs cfg = commaList cfg.adminCidrs) := by
  constructor
  · rintro ⟨cidrs, items, hcidrs, hitems, h⟩
    rw [written_iff.1 hcidrs, items_iff.1 hitems] at h
    exact h
  · exact fun h => ⟨_, _, written_iff.2 rfl, items_iff.2 rfl, h⟩

theorem HostIs.unique {url ip' : String} (h : HostIs url ip) (h' : HostIs url ip') : ip' = ip :=
  String.toList_inj.1 (Option.some.inj (h'.2.symm.trans h.2))

end

/-- The list is right exactly when every address that is not in the setting already is the host or
is no part of the URL. -/
theorem sshAllowList_iff (cfg : Config) : SshAllowList cfg ↔ PlainUrl cfg := by
  rw [sshAllowList_eq]
  constructor
  · rintro ⟨hhost, hnone⟩
    refine ⟨fun ip hlead => or_iff_not_imp_left.2 fun hnew => ?_,
      fun ip hip => or_iff_not_imp_left.2 fun hnew => ?_⟩
    -- the address was added, so it is the host's
    · have hadd := adminCidrs_of_leads hlead
      by_cases hany : ∃ ip', HostIs cfg.orchestratorUrl ip'
      · obtain ⟨ip', hip'⟩ := hany
        exact added_eq hnew (hadd.symm.trans (hhost ip' hip')) ▸ hip'
      · rw [hnone fun ip' h => hany ⟨ip', h⟩, if_neg hnew] at hadd
        exact absurd hadd.symm (by simp)
    -- the host's address was added, so it is the one that was found
    · have hadd := hhost ip hip
      by_cases hany : ∃ ip', Leads cfg.orchestratorUrl ip'
      · obtain ⟨ip', hlead⟩ := hany
        have hsame := added_eq hnew (hadd.symm.trans (adminCidrs_of_leads hlead))
        rw [hsame] at hlead
        exact ⟨scheme_of_leads hlead, .inr hlead⟩
      · rw [adminCidrs_of_not_leads fun ip' h => hany ⟨ip', h⟩, if_neg hnew] at hadd
        exact absurd hadd.symm (by simp)
  · rintro ⟨hleading, hliteral⟩
    constructor
    · intro ip hip
      by_cases hlead : Leads cfg.orchestratorUrl ip
      · exact adminCidrs_of_leads hlead
      · rcases hliteral ip hip with hlisted | ⟨hscheme, huser | hlead'⟩
        · rw [if_pos hlisted]
          by_cases hany : ∃ ip', Leads cfg.orchestratorUrl ip'
          · obtain ⟨ip', hlead'⟩ := hany
            rcases hleading ip' hlead' with hlisted' | hip'
            · rw [adminCidrs_of_leads hlead', if_pos hlisted']
            · exact absurd (hip.unique hip' ▸ hlead') hlead
          · exact adminCidrs_of_not_leads fun ip' h => hany ⟨ip', h⟩
        · exact absurd (leads_of_host hip hscheme huser) hlead
        · exact absurd hlead' hlead
    · intro hnone
      by_cases hany : ∃ ip, Leads cfg.orchestratorUrl ip
      · obtain ⟨ip, hlead⟩ := hany
        rw [adminCidrs_of_leads hlead, if_pos ((hleading ip hlead).resolve_right (hnone ip))]
      · exact adminCidrs_of_not_leads fun ip h => hany ⟨ip, h⟩

namespace Sample

def namedUrl : Config := { config with orchestratorUrl := "http://1.2.3.4.io" }

end Sample

/-- The name of a host opens SSH to an address. -/
theorem name_opens_ssh : ¬ ∀ cfg : Config, SshAllowList cfg := by
  intro h
  have hnone : ∀ ip, ¬ HostIs Sample.namedUrl.orchestratorUrl ip := by
    rintro ip ⟨hipv4, hhost⟩
    have hname : host Sample.namedUrl.orchestratorUrl.toList = some "1.2.3.4.io".toList := by decide
    have hip : ip.toList = "1.2.3.4.io".toList := Option.some.inj (hhost.symm.trans hname)
    exact absurd (hipv4.all 'i' (hip ▸ by decide)) (by decide)
  have hcidrs : adminCidrs Sample.namedUrl = ["1.2.3.4/32"] := by rfl
  cases hcidrs.symm.trans ((sshAllowList_eq.1 (h Sample.namedUrl)).2 hnone)

end GrillPlatform
