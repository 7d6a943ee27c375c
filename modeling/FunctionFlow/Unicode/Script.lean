import FunctionFlow.Unicode.Category

/-!
Contract: the scripts of characters.

The tables are those of version 16.
-/

namespace FunctionFlow

def scripts : List NamedTable := [
  ⟨["adlam", "adlm"], "1e900-5f"⟩,
  ⟨["ahom"], "11700-46"⟩,
  ⟨["anatolianhieroglyphs", "hluw"], "14400-246"⟩,
  ⟨["arabic", "arab"],
    "600-4 2-5 2-d 2-2 2-1f 2-9 c-19 2-6b 2-21 51-2f f1-71 2-1c f251-1ed 3-bf 71-8c f64-1e 44-3d
    df01-f1"⟩,
  ⟨["armenian", "armn"], "531-5e f584-4"⟩,
  ⟨["avestan", "avst"], "10b00-3f"⟩,
  ⟨["balinese", "bali"], "1b00-7f"⟩,
  ⟨["bamum", "bamu"], "a6a0-57 c109-238"⟩,
  ⟨["bassavah", "bass"], "16ad0-25"⟩,
  ⟨["batak", "batk"], "1bc0-3f"⟩,
  ⟨["bengali", "beng"], "980-7e"⟩,
  ⟨["bhaiksuki", "bhks"], "11c00-6c"⟩,
  ⟨["bopomofo", "bopo"], "2ea-1 2e1a-2a 71-1f"⟩,
  ⟨["brahmi", "brah"], "11000-7f"⟩,
  ⟨["braille", "brai"], "2800-ff"⟩,
  ⟨["buginese", "bugi"], "1a00-1f"⟩,
  ⟨["buhid", "buhd"], "1740-13"⟩,
  ⟨["canadianaboriginal", "cans"], "1400-27f 231-45 101bb-f"⟩,
  ⟨["carian", "cari"], "102a0-30"⟩,
  ⟨["caucasianalbanian", "aghb"], "10530-3f"⟩,
  ⟨["chakma", "cakm"], "11100-47"⟩,
  ⟨["cham"], "aa00-5f"⟩,
  ⟨["cherokee", "cher"], "13a0-5d 9773-4f"⟩,
  ⟨["chorasmian", "chrs"], "10fb0-1b"⟩,
  ⟨["coptic", "copt", "qaac"], "3e2-d 2891-7f"⟩,
  ⟨["cuneiform", "xsux"], "12000-543"⟩,
  ⟨["cypriot", "cprt"], "10800-3f"⟩,
  ⟨["cyprominoan", "cpmn"], "12f90-62"⟩,
  ⟨["cyrillic", "cyrl"], "400-84 3-a8 1751-a a1 4d 1068-1f 7841-5f 578f-1 e201-5f"⟩,
  ⟨["deseret", "dsrt"], "10400-4f"⟩,
  ⟨["devanagari", "deva"], "900-50 5-e 3-19 9f61-1f 7201-9"⟩,
  ⟨["divesakuru", "diak"], "11900-59"⟩,
  ⟨["dogra", "dogr"], "11800-3b"⟩,
  ⟨["duployan", "dupl"], "1bc00-9f"⟩,
  ⟨["egyptianhieroglyphs", "egyp"], "13000-13fa"⟩,
  ⟨["elbasan", "elba"], "10500-27"⟩,
  ⟨["elymaic", "elym"], "10fe0-16"⟩,
  ⟨["ethiopic", "ethi"], "1200-199 19e7-5e 7d23-2d 13cb2-1e"⟩,
  ⟨["garay", "gara"], "10d40-4f"⟩,
  ⟨["georgian", "geor"], "10a0-5a 2-3 b91-2f 1041-2d"⟩,
  ⟨["glagolitic", "glag"], "2c00-5f 1b3a1-2a"⟩,
  ⟨["gothic", "goth"], "10330-1a"⟩,
  ⟨["grantha", "gran"], "11300-39 3-38"⟩,
  ⟨["greek", "grek"],
    "370-3 2-8 2-5 2 2-59 f-f 1927-4 33-4 5-4 55 141-fe 128 8a3f 55db-4e 12 d060-45"⟩,
  ⟨["gujarati", "gujr"], "a81-7e"⟩,
  ⟨["gunjalagondi", "gong"], "11d60-49"⟩,
  ⟨["gurmukhi", "guru"], "a01-75"⟩,
  ⟨["gurungkhema", "gukh"], "16100-39"⟩,
  ⟨["han", "hani"], "2e80-155 30 2 1a-8 f-3 3c5-19bf 41-51ff 5901-1d9 7509-1 d-1 900f-123af"⟩,
  ⟨["hangul", "hang"], "1100-ff 1e2f-1 102-5d 72-1e 42-1e 76e2-1c 284-2bfb 27a5-3c"⟩,
  ⟨["hanifirohingya", "rohg"], "10d00-39"⟩,
  ⟨["hanunoo", "hano"], "1720-14"⟩,
  ⟨["hatran", "hatr"], "108e0-1f"⟩,
  ⟨["hebrew", "hebr"], "591-63 f529-32"⟩,
  ⟨["hiragana", "hira"], "3041-55 7-2 17f62-11e 13-20 40ae"⟩,
  ⟨["imperialaramaic", "armi"], "10840-1f"⟩,
  ⟨["inherited", "zinh", "qaai"],
    "300-6f 116-1 1c5-a 1b 2e1-3 115c-1e 202-2 2-c 2-6 5 7 4-1 c7-3f 20d-1 c3-20 f3a-3 6c-1 cd66-f
    11-d 3d0 e3 105b bbc5-46 221-2 12-7 3-6 1f-3 c2f53-ef"⟩,
  ⟨["inscriptionalpahlavi", "phli"], "10b60-1f"⟩,
  ⟨["inscriptionalparthian", "prti"], "10b40-1f"⟩,
  ⟨["javanese", "java"], "a980-4d 3-f"⟩,
  ⟨["kaithi", "kthi"], "11080-4d"⟩,
  ⟨["kannada", "knda"], "c80-73"⟩,
  ⟨["katakana", "kana"], "30a1-59 3-2 f1-f d1-2e 2-57 cc0f-9 2-2c b053-10 120-2 33-12"⟩,
  ⟨["kawi"], "11f00-5a"⟩,
  ⟨["kayahli", "kali"], "a900-2d 2"⟩,
  ⟨["kharoshthi", "khar"], "10a00-58"⟩,
  ⟨["khitansmallscript", "kits"], "16fe4 1b1c-1ff"⟩,
  ⟨["khmer", "khmr"], "1780-79 1e7-1f"⟩,
  ⟨["khojki", "khoj"], "11200-41"⟩,
  ⟨["khudawadi", "sind"], "112b0-49"⟩,
  ⟨["kiratrai", "krai"], "16d40-39"⟩,
  ⟨["lao", "laoo"], "e81-5e"⟩,
  ⟨["latin", "latn"],
    "41-19 7-19 30 10 6-16 2-1e 2-1c0 28-4 1a1c-25 7-30 6-3 6-c 2-45 42-ff 172 e 11-c 8e-1 7 1c
    12-28 ad8-1f 7aa3-65 4-74 331-2a 2-8 2-3 4f97-6 41b-19 7-19 826-3a d746-2a"⟩,
  ⟨["lepcha", "lepc"], "1c00-4f"⟩,
  ⟨["limbu", "limb"], "1900-4f"⟩,
  ⟨["lineara", "lina"], "10600-167"⟩,
  ⟨["linearb", "linb"], "10000-fa"⟩,
  ⟨["lisu"], "a4d0-2f 7ab1"⟩,
  ⟨["lycian", "lyci"], "10280-1c"⟩,
  ⟨["lydian", "lydi"], "10920-1f"⟩,
  ⟨["mahajani", "mahj"], "11150-26"⟩,
  ⟨["makasar", "maka"], "11ee0-18"⟩,
  ⟨["malayalam", "mlym"], "d00-7f"⟩,
  ⟨["mandaic", "mand"], "840-1e"⟩,
  ⟨["manichaean", "mani"], "10ac0-36"⟩,
  ⟨["marchen", "marc"], "11c70-46"⟩,
  ⟨["masaramgondi", "gonm"], "11d00-59"⟩,
  ⟨["medefaidrin", "medf"], "16e40-5a"⟩,
  ⟨["meeteimayek", "mtei"], "aae0-16 ca-39"⟩,
  ⟨["mendekikakui", "mend"], "1e800-d6"⟩,
  ⟨["meroiticcursive", "merc"], "109a0-5f"⟩,
  ⟨["meroitichieroglyphs", "mero"], "10980-1f"⟩,
  ⟨["miao", "plrd"], "16f00-9f"⟩,
  ⟨["modi"], "11600-59"⟩,
  ⟨["mongolian", "mong"], "1800-1 3 2-a4 fdb6-c"⟩,
  ⟨["mro", "mroo"], "16a40-2f"⟩,
  ⟨["multani", "mult"], "11280-29"⟩,
  ⟨["myanmar", "mymr"], "1000-9f 9941-1e 62-1f 6c51-13"⟩,
  ⟨["nabataean", "nbat"], "10880-2f"⟩,
  ⟨["nagmundari", "nagm"], "1e4d0-29"⟩,
  ⟨["nandinagari", "nand"], "119a0-44"⟩,
  ⟨["newtailue", "talu"], "1980-5f"⟩,
  ⟨["newa"], "11400-61"⟩,
  ⟨["nko", "nkoo"], "7c0-3f"⟩,
  ⟨["nushu", "nshu"], "16fe1 418f-18b"⟩,
  ⟨["nyiakengpuachuehmong", "hmnp"], "1e100-4f"⟩,
  ⟨["ogham", "ogam"], "1680-1c"⟩,
  ⟨["olchiki", "olck"], "1c50-2f"⟩,
  ⟨["olonal", "onao"], "1e5d0-2f"⟩,
  ⟨["oldhungarian", "hung"], "10c80-7f"⟩,
  ⟨["olditalic", "ital"], "10300-2f"⟩,
  ⟨["oldnortharabian", "narb"], "10a80-1f"⟩,
  ⟨["oldpermic", "perm"], "10350-2a"⟩,
  ⟨["oldpersian", "xpeo"], "103a0-35"⟩,
  ⟨["oldsogdian", "sogo"], "10f00-27"⟩,
  ⟨["oldsoutharabian", "sarb"], "10a60-1f"⟩,
  ⟨["oldturkic", "orkh"], "10c00-48"⟩,
  ⟨["olduyghur", "ougr"], "10f70-19"⟩,
  ⟨["oriya", "orya"], "b01-76"⟩,
  ⟨["osage", "osge"], "104b0-4b"⟩,
  ⟨["osmanya", "osma"], "10480-29"⟩,
  ⟨["pahawhhmong", "hmng"], "16b00-8f"⟩,
  ⟨["palmyrene", "palm"], "10860-1f"⟩,
  ⟨["paucinhau", "pauc"], "11ac0-38"⟩,
  ⟨["phagspa", "phag"], "a840-37"⟩,
  ⟨["phoenician", "phnx"], "10900-1f"⟩,
  ⟨["psalterpahlavi", "phlp"], "10b80-2f"⟩,
  ⟨["rejang", "rjng"], "a930-2f"⟩,
  ⟨["runic", "runr"], "16a0-4a 4-a"⟩,
  ⟨["samaritan", "samr"], "800-3e"⟩,
  ⟨["saurashtra", "saur"], "a880-59"⟩,
  ⟨["sharada", "shrd"], "11180-5f"⟩,
  ⟨["shavian", "shaw"], "10450-2f"⟩,
  ⟨["siddham", "sidd"], "11580-5d"⟩,
  ⟨["signwriting", "sgnw"], "1d800-2af"⟩,
  ⟨["sinhala", "sinh"], "d81-73 103ed-13"⟩,
  ⟨["sogdian", "sogd"], "10f30-29"⟩,
  ⟨["sorasompeng", "sora"], "110d0-29"⟩,
  ⟨["soyombo", "soyo"], "11a50-52"⟩,
  ⟨["sundanese", "sund"], "1b80-3f 101-7"⟩,
  ⟨["sunuwar", "sunu"], "11bc0-39"⟩,
  ⟨["sylotinagri", "sylo"], "a800-2c"⟩,
  ⟨["syriac", "syrc"], "700-4f 111-a"⟩,
  ⟨["tagalog", "tglg"], "1700-1f"⟩,
  ⟨["tagbanwa", "tagb"], "1760-13"⟩,
  ⟨["taile", "tale"], "1950-24"⟩,
  ⟨["taitham", "lana"], "1a20-8d"⟩,
  ⟨["taiviet", "tavt"], "aa80-5f"⟩,
  ⟨["takri", "takr"], "11680-49"⟩,
  ⟨["tamil", "taml"], "b82-78 113c6-3f"⟩,
  ⟨["tangsa", "tnsa"], "16a70-59"⟩,
  ⟨["tangut", "tang"], "16fe0 20-1aff 201-8"⟩,
  ⟨["telugu", "telu"], "c00-7f"⟩,
  ⟨["thaana", "thaa"], "780-31"⟩,
  ⟨["thai"], "e01-39 6-1b"⟩,
  ⟨["tibetan", "tibt"], "f00-d4 5-1"⟩,
  ⟨["tifinagh", "tfng"], "2d30-4f"⟩,
  ⟨["tirhuta", "tirh"], "11480-59"⟩,
  ⟨["todhri", "todr"], "105c0-33"⟩,
  ⟨["toto"], "1e290-1e"⟩,
  ⟨["tulutigalari", "tutg"], "11380-62"⟩,
  ⟨["ugaritic", "ugar"], "10380-1f"⟩,
  ⟨["vai", "vaii"], "a500-12b"⟩,
  ⟨["vithkuqi", "vith"], "10570-4c"⟩,
  ⟨["wancho", "wcho"], "1e2c0-3f"⟩,
  ⟨["warangciti", "wara"], "118a0-5f"⟩,
  ⟨["yezidi", "yezi"], "10e80-31"⟩,
  ⟨["yi", "yiii"], "a000-4c6"⟩,
  ⟨["zanabazarsquare", "zanb"], "11a00-47"⟩]

def borrowed : List (String × String) := [
  ("adlm", "61f 21 1a0f df2"),
  ("arab", "60c f 4 21 b-a 1b 19df df2 cefd-1 5a1-1b"),
  ("armn", "308"),
  ("avst", "b7 2d79-1"),
  ("beng", "2bc 695-1 12-1 136b 2 3-1 2 9 9 3 5 3-2 8bfa"),
  ("bopo", "2c7 2-2 e 2d28-2 5-9 2-c b-3 3 7 c4 cd4a-1 11b-4"),
  ("bugi", "a9cf"),
  ("buhd", "1735-1"),
  ("cari", "b7 1fa3 3 dd4"),
  ("aghb", "304 2dx2"),
  ("cakm", "9e6-9 651-9"),
  ("cher", "300-2 2 7-1 17-1 c-1"),
  ("copt", "b7 249 4-1 2 6d-1 2aa2 d4c9-1b"),
  ("cprt", "10100-2 5-2c 4-8"),
  ("cpmn", "10100-1"),
  ("cyrl", "2bc 44-2 2x3 3 6 174-1 1972 104b"),
  ("deva", "2bc 695-1 12-1 136b-26 2-1 3f7 8740-9"),
  ("dogr", "964-b 9ec1-9"),
  ("dupl", "b7 250-1 2 19-1 2b18 18e64-3"),
  ("elba", "b7 24e"),
  ("ethi", "30e"),
  ("gara", "60c f 4"),
  ("geor", "b7 4d2 b72 f5f dd7"),
  ("glag", "b7 24c 2 17f 3 102 b72 f5f de9 782c"),
  ("goth", "b7 24d-1 3 29"),
  ("gran", "951-1 12-1 281-d 10dd 2-1 1f-2 4-1 3f7 f24b c95-1 2"),
  ("grek", "b7 249-1 3 2 2 b 2f 3 2f 1a4c-1 29c"),
  ("gujr", "951-1 12-1 9ecb-9"),
  ("gong", "b7 8ad-1"),
  ("guru", "951-1 12-1 9ecb-9"),
  ("gukh", "965"),
  ("hani",
    "b7 2f39-f 2-2 3 2-9 2-c b-3 3 7 5-3 bc 95-f 21-25 a 31-27 39-30 10-b 34 59-18 b-4 61-1e
    7302-7 573e-1 11b-4 d3fb-11 1edf-1"),
  ("hang", "3001-2 5-9 2-c 11 7 c4 cd4a-1 11b-4"),
  ("rohg", "60c f 4 21 94"),
  ("hano", "1735-1"),
  ("hebr", "307-1"),
  ("hira", "3001-2 5-9 2-c 11-5 2 5-1 5c-3 4 5b-1 cd49-1 11b-4 b 2e-1"),
  ("java", "a9cf"),
  ("kthi", "966-9 24c2 79ff-9"),
  ("knda", "951-1 12-1 136b 2-1 7 18 2 8b3c-5"),
  ("kana", "305 1e 2cde-2 5-9 2-c 11-5 2 5-1 5c-3 4 5b-1 cd49-1 11b-4 b 2e-1"),
  ("kali", "a92e"),
  ("khoj", "ae6-9 9d41-9"),
  ("sind", "964-1 9ecb-9"),
  ("latn",
    "b7 205 b 2-2 2 a 2 27-e 2-1 2 10-2 8-1 2-1 27 6 5-c 116-1 4cb-1 7a9 cfd 237 c1 d27 78e9-7 227"),
  ("limb", "965"),
  ("lina", "10107-2c"),
  ("linb", "10100-2 5-2c 4-8"),
  ("lisu", "2bc 11 2d3d-1"),
  ("lyci", "205a"),
  ("lydi", "b7 2d7a"),
  ("mahj", "b7 8ad-b 9ec1-9"),
  ("mlym", "951-1 12-1 1375 18 8b3e-2"),
  ("mand", "640"),
  ("mani", "640"),
  ("gonm", "964-1"),
  ("mero", "205d"),
  ("modi", "a830-9"),
  ("mong", "1802-1 2 82a fd2-1 6-3"),
  ("mult", "a66-9"),
  ("mymr", "a92e"),
  ("nand", "951 13-1 381-9 ffa 9 8 8b36-5"),
  ("newa", "951-1 1383 2-1 a 7 2 2"),
  ("nkoo", "60c f 4 f71f-1"),
  ("onao", "964-1"),
  ("hung", "205a 3 dd4 10"),
  ("perm", "b7 249 6-2 b 170"),
  ("orkh", "205a dd6"),
  ("ougr", "640 104b2"),
  ("orya", "951-1 12-1 1375 18"),
  ("osge", "301 3 7 4d"),
  ("phag", "1802-1 2 82a fd3"),
  ("phlp", "640"),
  ("runr", "16eb-2"),
  ("samr", "2e31"),
  ("shrd", "951 1386 2 3-1 3 a 3 8b43-5 3"),
  ("shaw", "b7"),
  ("sinh", "964-1 138d"),
  ("sogd", "640"),
  ("sunu", "300-1 2 a 3 1d 4"),
  ("sylo", "964-1 81-9"),
  ("syrc", "303-1 3-1 2 19-2 8-1 2-1 2db f-1 3 21 b-a 1b 1788 2"),
  ("tglg", "1735-1"),
  ("tagb", "1735-1"),
  ("tale", "300-1 6-1 4 d34-9"),
  ("takr", "964-1 9ecb-9"),
  ("taml", "951-1 12-1 1375 8c19 6a0e 2 38-1"),
  ("tang", "2ff0-f 1f0"),
  ("telu", "951-1 12-1 1370-1 2 2 18"),
  ("thaa", "60c f-1 3 41-9 f789 b"),
  ("thai", "2bc 1b 2c 2e"),
  ("tibt", "3008-3"),
  ("tfng", "302 2 2-3 1a"),
  ("tirh", "951-1 12-1 1370 d 10 8b3e-9"),
  ("todr", "301 3 3 a 2 4b"),
  ("toto", "2bc"),
  ("tutg", "ce6-9 1003 2 8b3c-5 bc"),
  ("yezi", "60c f 4 41-9"),
  ("yiii", "3001-1 6-9 3-7 e0 ce66-4")]

def scriptNamed? : String → Option CharSet
  | "common" | "zyyy" =>
    some (((Category.charsOf Category.all).difference Category.privateUse.chars).difference
      (.unionOf (scripts.map NamedTable.chars)))
  | name => (NamedTable.find? scripts name).map (Category.charsOf Category.all).intersection

def scriptExtensionNamed? (name : String) : Option CharSet :=
  let isBorrower (script : String) : Bool :=
    scripts.any fun named => named.names.contains script && named.names.contains name
  let borrowedBy (isKept : String → Bool) : CharSet :=
    .unionOf ((borrowed.filter fun (script, _) => isKept script).map fun (_, table) => .read table)
  (scriptNamed? name).map fun chars =>
    if ["common", "zyyy", "inherited", "zinh", "qaai"].contains name then
      chars.difference (borrowedBy fun _ => true)
    else chars.union (borrowedBy isBorrower)

end FunctionFlow
