/-
# What the device reads from a command

`SetPeer.String` writes its fields as they are, so a command is read as it was meant only if no
line break can end a line early. Some of the fields come from remote nodes: an item of
`AllowedIPs` with a line break in it continues the command with settings of its own, and
`public_key=` there opens the section of another peer (`injected_peer`).

`read_as_meant_iff` says exactly which commands are read as meant: those whose public key can be
read, without line breaks in the items of `AllowedIPs` and in the endpoint, and without a carriage
return at the end of the endpoint, which the reader of lines takes away.
-/

import Wireflow.Agent.SetPeer

namespace Wireflow.Agent

open Go.Net Go.Strings Go.Text List SetPeer

variable {codec : KeyCodec} {p : SetPeer}

/-! ## Keys -/

theorem Key.fromHex_hex (key : Key) : Key.fromHex key.hex = some key := by
  have hbytes : ∀ b ∈ toBytes key.toNat 32, b < 256 := fun _ => lt_of_mem_toBytes
  have hlt : key.toNat < 256 ^ 32 := by
    have := key.isLt
    omega
  rw [Key.fromHex, Key.hex, decodeHex_encodeHex hbytes]
  simp only [length_toBytes, if_true, ofBytes_toBytes hlt, BitVec.ofNat_toNat, BitVec.setWidth_eq]

theorem Key.hex_ne_empty (key : Key) : key.hex ≠ "" := by
  intro hempty
  have hread := key.fromHex_hex
  have hnone : Key.fromHex "" = none := rfl
  rw [hempty, hnone] at hread
  cases hread

/-- A text without line breaks, and without a carriage return at its end. -/
def OneLine (text : String) : Prop :=
  '\n' ∉ text.toList ∧ text.toList.getLast? ≠ some '\r'

variable {text : String}

theorem oneLine_of_forall (h : ∀ c ∈ text.toList, c ≠ '\n' ∧ c ≠ '\r') :
    OneLine text := by
  refine ⟨fun hc => (h _ hc).1 rfl, fun hlast => ?_⟩
  exact (h _ (mem_of_getLast? hlast)).2 rfl

theorem oneLine_keyf (codec : KeyCodec) (value : String) : OneLine (keyf codec value) := by
  apply oneLine_of_forall
  intro c hc
  unfold keyf at hc
  split_ifs at hc
  · cases hc
  · split at hc
    · cases hc
    · exact encodeHex_plain (fun _ => lt_of_mem_toBytes) hc

theorem oneLine_intText (n : ℤ) : OneLine (intText n) := by
  have hdigit : ∀ (m : ℕ) (c : Char), c ∈ (Nat.repr m).toList → c ≠ '\n' ∧ c ≠ '\r' := by
    intro m c hc
    rw [Nat.toList_repr] at hc
    have := Nat.isDigit_of_mem_toDigits (by decide) (by decide) hc
    constructor
    all_goals
      rintro rfl
      exact absurd this (by decide)
  apply oneLine_of_forall
  intro c hc
  cases n with
  | ofNat m => exact hdigit m c hc
  | negSucc m =>
    rw [intText, String.toList_append, mem_append] at hc
    rcases hc with hc | hc
    · rw [mem_singleton.mp hc]
      decide
    · exact hdigit _ c hc

/-! ## The settings of a command -/

/-- The settings that follow the public key. -/
def SetPeer.others (codec : KeyCodec) (p : SetPeer) : List Setting :=
  printf "preshared_key" (keyf codec p.presharedKey) ++
  (printf "replace_allowed_ips" "true" ++
  (printf "persistent_keepalive_interval" (intText p.persistentKeepalived) ++
  (p.allowedItems.flatMap (printf "allowed_ip") ++
  (printf "endpoint" p.endpoint ++
  (if p.remove then printf "remove" "true" else [])))))

theorem settings_eq :
    p.settings codec = printf "public_key" (keyf codec p.publicKey) ++
      p.others codec := by
  simp only [settings, others, append_assoc]

variable {s : Setting}

theorem mem_printf {key value : String} :
    s ∈ printf key value ↔ value ≠ "" ∧ s = (key, value) := by
  unfold printf
  split_ifs with h
  · simp [h]
  · simp [h]

variable {item : String}

/-- The items have been trimmed. -/
theorem getLast?_allowedItems (h : item ∈ p.allowedItems) :
    item.toList.getLast? ≠ some '\r' := by
  obtain ⟨hmem, -⟩ := mem_filter.mp h
  obtain ⟨cidr, -, rfl⟩ := mem_map.mp hmem
  intro hlast
  exact absurd (isSpace_of_getLast?_trimSpace hlast) (by decide)

/-- The keys of settings. -/
def settingNames : List String :=
  ["public_key", "preshared_key", "replace_allowed_ips", "persistent_keepalive_interval",
    "allowed_ip", "endpoint", "remove"]

/-- The keys are fixed, and the values are texts of one line unless they come from outside. -/
theorem mem_others (h : s ∈ p.others codec) :
    s.1 ∈ settingNames.tail ∧ s.2 ≠ "" ∧
      (OneLine s.2 ∨ s.2 ∈ p.allowedItems ∨ s.2 = p.endpoint) := by
  simp only [others, mem_append, mem_flatMap, mem_printf] at h
  rcases h with ⟨hne, rfl⟩ | ⟨hne, rfl⟩ | ⟨hne, rfl⟩ | ⟨item, hitem, hne, rfl⟩ | ⟨hne, rfl⟩ | h
  · exact ⟨by simp [settingNames], hne, .inl (oneLine_keyf codec _)⟩
  · exact ⟨by simp [settingNames], hne, .inl ⟨by decide, by decide⟩⟩
  · exact ⟨by simp [settingNames], hne, .inl (oneLine_intText _)⟩
  · exact ⟨by simp [settingNames], hne, .inr (.inl hitem)⟩
  · exact ⟨by simp [settingNames], hne, .inr (.inr rfl)⟩
  · split_ifs at h
    · obtain ⟨hne, rfl⟩ := mem_printf.mp h
      exact ⟨by simp [settingNames], hne, .inl ⟨by decide, by decide⟩⟩
    · cases h

theorem mem_settings (h : s ∈ p.settings codec) :
    s.1 ∈ settingNames ∧ s.2 ≠ "" ∧
      (OneLine s.2 ∨ s.2 ∈ p.allowedItems ∨ s.2 = p.endpoint) := by
  rw [settings_eq, mem_append, mem_printf] at h
  rcases h with ⟨hne, rfl⟩ | h
  · exact ⟨by simp [settingNames], hne, .inl (oneLine_keyf codec _)⟩
  · obtain ⟨hname, hvalue⟩ := mem_others h
    exact ⟨mem_of_mem_tail hname, hvalue⟩

/-! ## Reading settings -/

/-- The line of a setting. -/
def lineOf (s : Setting) : List Char := s.1.toList ++ '=' :: s.2.toList

/-- A value as it is read. -/
def readValue (value : String) : String := String.ofList (dropCR value.toList)

theorem readValue_eq_iff {value : String} :
    readValue value = value ↔ value.toList.getLast? ≠ some '\r' := by
  constructor
  · intro hread hlast
    apply dropCR_ne hlast
    have hlist := congrArg String.toList hread
    rwa [readValue, String.toList_ofList] at hlist
  · intro hlast
    rw [readValue, dropCR, if_neg hlast, String.ofList_toList]

theorem toList_string (codec : KeyCodec) (p : SetPeer) :
    (p.string codec).toList = ((p.settings codec).map lineOf).flatMap (· ++ ['\n']) := by
  simp [string, String.toList_join, flatMap_map, lineOf, String.toList_append]

theorem readLine_lineOf (hname : '=' ∉ s.1.toList) (hvalue : s.2 ≠ "") :
    readLine (dropCR (lineOf s)) = some (s.1, readValue s.2) := by
  have hne : s.2.toList ≠ [] := by
    intro hnil
    exact hvalue (String.toList_eq_nil_iff.mp hnil)
  have hline : lineOf s = (s.1.toList ++ ['=']) ++ s.2.toList := by simp [lineOf]
  have hdrop : dropCR (lineOf s) = s.1.toList ++ '=' :: dropCR s.2.toList := by
    rw [hline, dropCR_append _ hne]
    simp
  rw [hdrop, readLine, cut_append hname, Option.map_some, String.ofList_toList]
  rfl

theorem settingNames_plain : ∀ name ∈ settingNames, '=' ∉ name.toList ∧ '\n' ∉ name.toList := by
  decide

/-- Settings whose values hold no line break are read one by one. -/
theorem readSettings_string (h : ∀ s ∈ p.settings codec, '\n' ∉ s.2.toList) :
    readSettings (p.string codec) =
      some ((p.settings codec).map fun s => (s.1, readValue s.2)) := by
  have hlines : ∀ line ∈ (p.settings codec).map lineOf, '\n' ∉ line := by
    intro line hline
    obtain ⟨s, hs, rfl⟩ := mem_map.mp hline
    have hname := (settingNames_plain _ (mem_settings hs).1).2
    simp only [lineOf, mem_append, mem_cons, not_or]
    exact ⟨hname, by decide, h s hs⟩
  have hread : ∀ s ∈ p.settings codec,
      readLine (dropCR (lineOf s)) = some (s.1, readValue s.2) := fun s hs =>
    readLine_lineOf (settingNames_plain _ (mem_settings hs).1).1 (mem_settings hs).2.1
  rw [readSettings, toList_string, scanLines_lines hlines, takeWhile_eq_self_iff.mpr]
  · generalize p.settings codec = settings at hread
    clear hlines h
    induction settings with
    | nil => rfl
    | cons s settings ih =>
      rw [forall_mem_cons] at hread
      simp only [map_cons, mapM_cons, hread.1, ih hread.2]
      rfl
  · intro line hline
    -- a line that is read as a setting is not empty
    obtain ⟨_, hmem, rfl⟩ := mem_map.mp hline
    obtain ⟨s, hs, rfl⟩ := mem_map.mp hmem
    have hsome := hread s hs
    refine decide_eq_true fun hnil => ?_
    rw [hnil] at hsome
    cases hsome

/-- Whatever the text was, the values that are read hold no line break. -/
theorem notMem_readSettings {settings : List Setting} (h : readSettings text = some settings)
    (hs : s ∈ settings) :
    '\n' ∉ s.2.toList := by
  obtain ⟨line, hline, hread⟩ := exists_of_mem_mapM h hs
  have hscan : '\n' ∉ line := notMem_scanLines (takeWhile_subset _ hline)
  unfold readLine at hread
  obtain ⟨⟨key, value⟩, hcut, rfl⟩ := Option.map_eq_some_iff.mp hread
  rw [String.toList_ofList]
  exact fun hc => hscan (value_subset_of_cut hcut hc)

/-! ## Reading sections -/

variable (name : String)

/-- The values of a setting in a list of settings. -/
def valuesOf (settings : List Setting) : List String :=
  (settings.filter (·.1 = name)).map Prod.snd

theorem valuesOf_append (l l' : List Setting) :
    valuesOf name (l ++ l') = valuesOf name l ++ valuesOf name l' := by
  simp [valuesOf]

theorem valuesOf_printf (key value : String) :
    valuesOf name (printf key value) =
      if key = name ∧ value ≠ "" then [value] else [] := by
  unfold valuesOf printf
  by_cases hvalue : value = ""
  · simp [hvalue]
  · by_cases hname : key = name
    · simp [hvalue, hname]
    · simp [hvalue, hname]

/-- What is done to values commutes with picking them. -/
theorem valuesOf_map (f : String → String) (settings : List Setting) :
    valuesOf name (settings.map fun s => (s.1, f s.2)) = (valuesOf name settings).map f := by
  induction settings with
  | nil => rfl
  | cons s settings ih =>
    unfold valuesOf at ih ⊢
    by_cases hname : s.1 = name
    · simp only [map_cons, filter_cons, hname, decide_true, if_true, ih]
    · simp only [map_cons, filter_cons, hname, decide_false, Bool.false_eq_true, if_false,
        ih]

theorem valuesOf_flatMap_printf (key : String) {values : List String}
    (h : ∀ value ∈ values, value ≠ "") :
    valuesOf name (values.flatMap (printf key)) = if key = name then values else [] := by
  induction values with
  | nil => simp [valuesOf]
  | cons value values ih =>
    rw [forall_mem_cons] at h
    rw [flatMap_cons, valuesOf_append, valuesOf_printf, ih h.2]
    by_cases hname : key = name
    · simp [hname, h.1]
    · simp [hname]

theorem ne_empty_of_mem_allowedItems (h : item ∈ p.allowedItems) : item ≠ "" :=
  of_decide_eq_true (mem_filter.mp h).2

/-- Settings that open no section are about whatever came before. -/
theorem readSections_of_ne {settings : List Setting} (h : ∀ s ∈ settings, s.1 ≠ "public_key") :
    readSections settings = some { device := settings } := by
  induction settings with
  | nil => rfl
  | cons s settings ih =>
    rw [forall_mem_cons] at h
    rw [readSections, ih h.2]
    simp [h.1]

/-- The settings of a section are among those that were read. -/
theorem mem_of_readSections {settings : List Setting} {r : Request}
    (h : readSections settings = some r) :
    (∀ s ∈ r.device, s ∈ settings) ∧
      ∀ peer ∈ r.peers, ∀ s ∈ peer.settings, s ∈ settings := by
  induction settings generalizing r with
  | nil =>
    cases h
    exact ⟨fun _ hs => hs, fun _ hpeer => (nomatch hpeer)⟩
  | cons s settings ih =>
    rw [readSections] at h
    obtain ⟨rest, hrest, h⟩ := Option.bind_eq_some_iff.mp h
    obtain ⟨hdevice, hpeers⟩ := ih hrest
    split_ifs at h
    · obtain ⟨key, -, h⟩ := Option.bind_eq_some_iff.mp h
      cases h
      refine ⟨fun _ hs => (nomatch hs), fun peer hpeer t ht => ?_⟩
      rcases mem_cons.mp hpeer with rfl | hpeer
      · exact .tail _ (hdevice t ht)
      · exact .tail _ (hpeers peer hpeer t ht)
    · cases h
      refine ⟨fun t ht => ?_, fun peer hpeer t ht => .tail _ (hpeers peer hpeer t ht)⟩
      rcases mem_cons.mp ht with rfl | ht
      · exact mem_cons_self
      · exact .tail _ (hdevice t ht)

/-- The values that a section lists hold no line break. -/
theorem notMem_values {r : Request} (h : request text = some r) {peer : PeerSection}
    (hpeer : peer ∈ r.peers) {name value : String} (hvalue : value ∈ peer.values name) :
    '\n' ∉ value.toList := by
  obtain ⟨settings, hread, hsections⟩ := Option.bind_eq_some_iff.mp h
  obtain ⟨s, hs, rfl⟩ := mem_map.mp hvalue
  have hmem := (mem_of_readSections hsections).2 peer hpeer s (mem_filter.mp hs).1
  exact notMem_readSettings hread hmem

/-! ## Commands that are read as they were meant -/

/-- The text of a command is a request about exactly its peer, with its addresses, its endpoint
and its removal. -/
def ReadAsMeant (codec : KeyCodec) (p : SetPeer) : Prop :=
  ∃ key peer, codec.parseKey p.publicKey = some key ∧
    request (p.string codec) = some { peers := [peer] } ∧ peer.publicKey = key ∧
    peer.allowedIPs = p.allowedItems ∧ peer.endpoint = p.endpoint ∧ peer.removed = p.remove

/-- No field of a command can end a line early. -/
structure NoLineBreak (p : SetPeer) : Prop where
  allowedIPs : ∀ item ∈ p.allowedItems, '\n' ∉ item.toList
  endpoint : '\n' ∉ p.endpoint.toList

theorem NoLineBreak.settings (h : NoLineBreak p) (hs : s ∈ p.settings codec) :
    '\n' ∉ s.2.toList := by
  rcases (mem_settings hs).2.2 with hone | hitem | hend
  · exact hone.1
  · exact h.allowedIPs _ hitem
  · rw [hend]
    exact h.endpoint

theorem ReadAsMeant.noLineBreak (h : ReadAsMeant codec p) : NoLineBreak p := by
  obtain ⟨key, peer, -, hrequest, -, hallowed, hendpoint, -⟩ := h
  refine ⟨fun item hitem => ?_, ?_⟩
  · rw [← hallowed] at hitem
    exact notMem_values hrequest mem_cons_self hitem
  · rw [← hendpoint, PeerSection.endpoint]
    cases hlast : (peer.values "endpoint").getLast? with
    | none => exact not_mem_nil
    | some value => exact notMem_values hrequest mem_cons_self (mem_of_getLast? hlast)

/-- The settings after the public key, as they are read. -/
def SetPeer.readOthers (codec : KeyCodec) (p : SetPeer) : List Setting :=
  (p.others codec).map fun s => (s.1, readValue s.2)

theorem readOthers_ne : ∀ s ∈ p.readOthers codec, s.1 ≠ "public_key" := by
  intro s hs hname
  obtain ⟨t, ht, rfl⟩ := mem_map.mp hs
  have hmem := (mem_others ht).1
  have hname : t.1 = "public_key" := hname
  rw [hname] at hmem
  revert hmem
  decide

/-- Without a key that can be read there is no section. -/
theorem request_of_no_key (h : NoLineBreak p) (hkey : keyf codec p.publicKey = "") :
    request (p.string codec) = some { device := p.readOthers codec } := by
  rw [request, readSettings_string fun s hs => h.settings hs, Option.bind_some, settings_eq, hkey]
  exact readSections_of_ne readOthers_ne

theorem request_of_key (h : NoLineBreak p) {key : Key} (hempty : p.publicKey ≠ "")
    (hkey : codec.parseKey p.publicKey = some key) :
    request (p.string codec) = some { peers := [⟨key, p.readOthers codec⟩] } := by
  have hkeyf : keyf codec p.publicKey = key.hex := by
    rw [keyf, if_neg hempty, hkey]
  have hvalue : readValue key.hex = key.hex := by
    rw [readValue_eq_iff, ← hkeyf]
    exact (oneLine_keyf codec _).2
  rw [request, readSettings_string fun s hs => h.settings hs, Option.bind_some, settings_eq, hkeyf,
    printf, if_neg key.hex_ne_empty, map_append, map_singleton,
    singleton_append, readSections, hvalue]
  have hothers : readSections ((p.others codec).map fun s => (s.1, readValue s.2)) =
      some { device := p.readOthers codec } := readSections_of_ne readOthers_ne
  rw [hothers]
  simp [Key.fromHex_hex]

/-- The values of the settings that depend on more than the keys. -/
theorem valuesOf_readOthers {name : String}
    (h : name ∉ ["preshared_key", "replace_allowed_ips", "persistent_keepalive_interval"]) :
    valuesOf name (p.readOthers codec) =
      ((if "allowed_ip" = name then p.allowedItems else []) ++
        ((if "endpoint" = name ∧ p.endpoint ≠ "" then [p.endpoint] else []) ++
          if "remove" = name ∧ p.remove then ["true"] else [])).map readValue := by
  simp only [mem_cons, not_mem_nil, or_false, not_or] at h
  have hremove : valuesOf name (if p.remove then printf "remove" "true" else []) =
      if "remove" = name ∧ p.remove then ["true"] else [] := by
    cases p.remove with
    | false => simp [valuesOf]
    | true => simp [valuesOf_printf]
  rw [readOthers, valuesOf_map, others]
  simp only [valuesOf_append, valuesOf_printf,
    valuesOf_flatMap_printf _ _ fun _ => ne_empty_of_mem_allowedItems, hremove, Ne.symm h.1,
    Ne.symm h.2.1, Ne.symm h.2.2, false_and, if_false, nil_append]

section Section

variable (codec p) (key : Key)

theorem allowedIPs_readOthers :
    PeerSection.allowedIPs ⟨key, p.readOthers codec⟩ = p.allowedItems := by
  have hvalues : valuesOf "allowed_ip" (p.readOthers codec) = p.allowedItems.map readValue := by
    rw [valuesOf_readOthers (by decide)]
    simp
  refine hvalues.trans ?_
  have hitems : ∀ item ∈ p.allowedItems, readValue item = item := fun _ hitem =>
    readValue_eq_iff.mpr (getLast?_allowedItems hitem)
  rw [map_congr_left hitems, map_id']

theorem endpoint_readOthers :
    PeerSection.endpoint ⟨key, p.readOthers codec⟩ = readValue p.endpoint := by
  have hvalues : valuesOf "endpoint" (p.readOthers codec) =
      (if p.endpoint = "" then [] else [p.endpoint]).map readValue := by
    rw [valuesOf_readOthers (by decide)]
    simp
  have hsection : PeerSection.endpoint ⟨key, p.readOthers codec⟩ =
      ((valuesOf "endpoint" (p.readOthers codec)).getLast?).getD "" := rfl
  rw [hsection, hvalues]
  by_cases hempty : p.endpoint = ""
  · rw [hempty]
    rfl
  · rw [if_neg hempty]
    rfl

theorem removed_readOthers :
    PeerSection.removed ⟨key, p.readOthers codec⟩ = p.remove := by
  have hvalues : valuesOf "remove" (p.readOthers codec) =
      (if p.remove then ["true"] else []).map readValue := by
    rw [valuesOf_readOthers (by decide)]
    simp
  have hsection : PeerSection.removed ⟨key, p.readOthers codec⟩ =
      (valuesOf "remove" (p.readOthers codec)).contains "true" := rfl
  rw [hsection, hvalues]
  cases p.remove with
  | false => rfl
  | true => decide

end Section

/-- A command is read as it was meant if and only if its public key can be read, no line break is
in its addresses or its endpoint, and no carriage return ends the endpoint. -/
theorem read_as_meant_iff (codec : KeyCodec) (p : SetPeer) :
    ReadAsMeant codec p ↔
      p.publicKey ≠ "" ∧ (codec.parseKey p.publicKey).isSome ∧
        (∀ item ∈ p.allowedItems, '\n' ∉ item.toList) ∧
        '\n' ∉ p.endpoint.toList ∧ p.endpoint.toList.getLast? ≠ some '\r' := by
  constructor
  · intro h
    have hbreak := h.noLineBreak
    obtain ⟨key, peer, hkey, hrequest, -, -, hendpoint, -⟩ := h
    have hempty : p.publicKey ≠ "" := by
      intro hempty
      rw [request_of_no_key hbreak (by rw [keyf, if_pos hempty])] at hrequest
      exact cons_ne_nil _ _ (congrArg Request.peers (Option.some.inj hrequest)).symm
    rw [request_of_key hbreak hempty hkey] at hrequest
    cases hrequest
    rw [endpoint_readOthers] at hendpoint
    exact ⟨hempty, by rw [hkey]; rfl, hbreak.allowedIPs, hbreak.endpoint,
      readValue_eq_iff.mp hendpoint⟩
  · rintro ⟨hempty, hparses, hallowed, hendpoint, hlast⟩
    obtain ⟨key, hkey⟩ := Option.isSome_iff_exists.mp hparses
    refine ⟨key, _, hkey, request_of_key ⟨hallowed, hendpoint⟩ hempty hkey, rfl,
      allowedIPs_readOthers codec p key, ?_, removed_readOthers codec p key⟩
    rw [endpoint_readOthers, readValue_eq_iff.mpr hlast]

/-- Keys are read from one letter, and there are two of them. -/
def letterCodec : KeyCodec where
  parseKey text := if text = "a" then some 1 else if text = "b" then some 2 else none

/-- A command for peer `a`, with addresses that `a` has sent. -/
def injectedCommand : SetPeer :=
  { publicKey := "a"
    allowedIPs := "10.0.0.2/32\npublic_key=" ++ Key.hex 2 ++ "\nallowed_ip=0.0.0.0/0" }

/-- It is read as commands for two peers, and the other one gets all addresses. -/
theorem injected_peer :
    ((request (injectedCommand.string letterCodec)).map fun r =>
      r.peers.map fun peer => (peer.publicKey, peer.allowedIPs)) =
        some [((1 : Key), ["10.0.0.2/32"]), ((2 : Key), ["0.0.0.0/0"])] ∧
    ¬ ReadAsMeant letterCodec injectedCommand := by
  refine ⟨by decide +kernel, ?_⟩
  intro h
  have hmem : "10.0.0.2/32\npublic_key=" ++ Key.hex 2 ++ "\nallowed_ip=0.0.0.0/0" ∈
      injectedCommand.allowedItems := by decide +kernel
  exact h.noLineBreak.allowedIPs _ hmem (by decide +kernel)

end Wireflow.Agent
