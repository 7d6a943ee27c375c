import FunctionFlow.Unicode.CharProperty

/-!
Contract: the versions in which characters were assigned.
-/

namespace FunctionFlow

def ages : List NamedTable := [
  ⟨["1.1", "v11"], ""⟩,
  ⟨["2.0", "v20"], "591-1e 15 93c-b9 ee2 210 8b55-2ba3 1285b-f0001"⟩,
  ⟨["2.1", "v21"], "20ac df50"⟩,
  ⟨["3.0", "v30"],
    "1f6-3 1f-1b 76-4 32 b-4 58-8 14 75 4 2x3 1f d 43 d 2b-7 5d-1 9d c9-2 63-1 6 10 2b-b6 5d2-72
    176 2c 18-2 8 2-9f 1a7-6a9 786 19-5 60-2 33-1 56-1 49 68-8 10e 7a-1f 8b-1 1ca-7 22 57-1
    18f-7fb 3d-6 162-17 249-19b5 524b-4c6 5657 4dc-2"⟩,
  ⟨["3.1", "v31"], "3f4-1 f9db-1f 511-d4ff 2801-fa1d b05e4-7e"⟩,
  ⟨["3.2", "v32"],
    "220 12f 14-c 69-1 1d 94-1 3a-1 3-1x2 32-f 15f-1 142 946-1 608-73 8d4 7-15 e 3f-1 33-6 53-e
    a9-b f3-d 7d 1f-33 11d-13 98-9 59-7 17-1 5b-17 df-d 5b-2f 101-1ff 53c-2 58-1 9-1 5f f1-f
    52-ex2 71e3-1 11 d 4 556b-3a 392-13 36-1 2d ec-1"⟩,
  ⟨["4.0", "v40"],
    "221 13-2 78-1 40-10 51-f 98-4 205-3 a-8 41-2 96-1 10 2e-2 1e-2 1b5 b9 44 2 89 55-2 e 44 3c
    82-7 c2-1 b20 13-9 107-46b 2e8-1 e7 294-1 12f 115-1 75-17 45f-d 710-1 32 2c-1 4f-3 a8-3 64-1
    20 19c1-3f affe 4a-1 1b8-13f 241-1f 87-1 27-3f1 cac1-56 16b c2c3f-ef"⟩,
  ⟨["4.1", "v41"],
    "237-a 117-4 a0-3 f7-1 ab 23-2 44 13 3b-5 f2-1d 210 51 1e8 30 3ea-1 128-1 2 10b 40x2 28 20x3
    10 28 18-1 20-19 5e7-5f 21-1f 34d-57 292-1 2-6 32-4 1e-3 36 51 10 285-a 23d 66-1 13-a 6-f
    10f-6 348-30f 3a3-f af 6d28-15 745-12b 5245-69 337-9 327-4a 216-35 62b-58 c7a8-45 45f-1"⟩,
  ⟨["5.0", "v50"],
    "242-d 12c-2 152 2b-5 11-3 a7 206-3a 181-1 2-1 363-1 e-1 e0e-7c 248-3b 2ed-3 5e-1 36 258-b 2cb
    115-3 34a-f 13d-17 7aa0-a 11f-37 6089-1f 16e1-473 aeed-11 459-1"⟩,
  ⟨["5.1", "v51"],
    "370-3 3-1 58 b8 8d-f e3-4 c-4 21-4 12f-11 1f2-1 df 24 cf 1e-1 6dx2 1b-1 9-1 15-7 be 7 1e-1
    d-f 1ec-1 62 4-2 4e 6 3 8-2 5-5 1b-45 80b 2d6-ff 14c-1b b6-3 5b-5 165 8c 5f 36-3 515 16-10 109
    20-3 32c-4 5-30 119-6 5-5 163-1f 19-3 3-12 2fd a3-13 6dd9-7 53d-197 84-4 3-dd 81-1df 53c5-2
    36a-140 650-1f c7ea 1ed7-93"⟩,
  ⟨["5.2", "v52"],
    "524-1 2db-100 4e 7 24-1 81 5da-3 c2-3 bd-4 45-4 53-5 201 277-8 231-45 b5-1 2f 46-8d 223-22
    10b 2b9-2 98-2 37 25f 2b6-1 1e-2 5-3b 58 3fe-4 117 e-1 6c-6 140 413-b 6d75-7 505-2f 1a1-57
    139-9 a7-1b 65-7f 81-199 2bb7-4b 2270-2 dd3-1f bb-1 145-661 1f3f-42e bcd2-148 b4b8-1034"⟩,
  ⟨["6.0", "v60"],
    "526-1 f9 3f 1e1-1e dc-1 14 7-1 1c-4 1fb-5 1b2 11 14 23e-3 4a-1 383-1 862-3f 1fd 299-7 1d
    330-a 2db 14 2-3 1e 5-1 1d 24 2 5-2 a-1 35-2 19 f f-1 5a1-f 439-2 74a6-1 12c-6d 307-2d 5084-f
    143f-6f 5791-4801 409f-3f 51 2-a 2 2-1 2-2x2 6-7 2-6 2-18 2 3-1 2-9 5-1 2-6e 2-1 30-8 16-523
    bfcd-dd"⟩,
  ⟨["6.1", "v61"],
    "58f 75 29c-5e 1f2 3ee-1 1e8-6 30-2 aac-2 d-5 101-7 2c-3 ad5 2 525-1 34-6 39-1 cb-9 7191 6a8-7
    24 f3-1 17-4f 2e7-16 4f38-1 f51-3f 711-5f9 5837-9f 7e61-f1 279-1 3d5-3 bd 11 4 2x3 4 7-1 5 2-1
    5"⟩,
  ⟨["6.2", "v62"], "20ba"⟩,
  ⟨["6.3", "v63"], "61c 1a4a-3"⟩,
  ⟨["7.0", "v70"],
    "37f 1a9-7 5e-1 77 29c c-5 4d 79 8 280 34 4d 80 e5-9 902-7 225-1 192-e 23a-1 ee-e 2c6-2 337-6
    306 44d-2 b-77 26b-6 7856-5 f7-b c-4c 1e9-1e 7e-3 b1-35 52c2-6 35e-1 14 140-1b 24 31-2a
    186-267 f9-4f 1d1-76 8a-2f 4d0 d1-26 57 d-47f 247-258 877-29 cb-b 6 45cc-14f 5071-a3 2b5d-d6
    7e9 21-15 16-1 215-b a 47 17-b 26 6-14 12-6 48 2 b7 5-1 40-1 5-6 1e-92 47-1 e-2f 47-2d 8d-12d"⟩,
  ⟨["8.0", "v80"],
    "8b3-30 216 161 105 696-8 cc1 cc-1 a61-3 73de-8 6c9 f1 23-5 145-1 263-3 d-4f 526f-1 ab1-1f
    bd-1 3-3f 281-7f 4ca-3 f-4 a1-29 57 50 27a-13 123-3f c5a e7-c3 1ebd-246 8b98-a 618-2af 187e-2
    4f-1 50-4 25-7 100 4c-4 f4-1 8c 240-b0 be60-1681"⟩,
  ⟨["9.0", "v90"],
    "8b6-2c 39e cf-7 2-6 18-2 f08-8 173 600-3 a45-1 796a 117 58c8-1 322-4b d43 1c2-5d 203-c 594-b6
    532a-1b12 550e-2a 8d6-5f 83c-11 8f 33f 2a 12d-1 22-2 223-45 27-c"⟩,
  ⟨["10.0", "v100"],
    "860-a 192-1 fd-5 201 3b-1 fbb ff-3 2c6 340 7d3 273-4 2e5 6ea8-14 6343-2 16d1-a2 25e-59 5288
    4021-2f9 3f65-5 46e-1 23-1 208-b 14 9-7 2-1 1a 13-c 27-5 39-16 d4ca-1d30"⟩,
  ⟨["11.0", "v110"],
    "560 28 67 20e-2 d4 12b 78 18e 80 bf4 418-2f efb-2 17-18 5-e 24c-4 2e1 6ebc-4 7c0 9-1 145-1
    6135-1 13 2b8-39 1c7-59 174 77-2 1f5 123 2bc e6-3b 262 2c3-198 4f48-5a 1953-4 4aef-13 7f-6
    18f9-43 47b 5ca dc-3 175-2 1d-13 19-21 8-1 25-86"⟩,
  ⟨["12.0", "v120"],
    "c77 20f 3 3 2-5 5 8 8-1 3 e e40 ecf 36 250 796b-c 3a0-1 6479-16 469 259 2e8-44 a0-1 53b-3f
    1431-8 3b0d-a 30-8 5b-1 180f-5 2959-17 2f99-1ff 64c 3b6-3c 42f 569 25 e6-b 122-2 30 32 a 2a-a
    b-5 4-c 31-53 1d-25"⟩,
  ⟨["12.1", "v121"], "32ff"⟩,
  ⟨["13.0", "v130"],
    "8be-9 28e 1af 7d d3e-1 10d7 2b9-2 369-4 1bf7-9 5231-c 7cb-2f 36 33c-3 5631 ce4-31 ff-1b 17c
    87-1 28b 6-1 49f-59 657 5034-d 1b02-215 6405-2 5e-2 3e 529-1 24-1 1b4-1 5b 66 5-1 2b-1 7-2 1e
    a9 f-3 10-163 aade-6 5923-134a"⟩,
  ⟨["14.0", "v140"],
    "61d 253-2f 16 13-a 36a 21 80 a30 8-a f0 2b2-d 7e 31-1 27c 2c6 b6f 30 1f4-a 71a0-2 7c1-1 f-24
    53ce 17e-f 80 2f-1 771-4c 1c4-3a 7b6-19 e7-5 4d 5f7 87-6 36a-f 14d1-62 3a7e-59 4527-e 121-3
    1dde-c3 226-1 d16-1e 372-1e 532-1e edf-2 111 189 53 af-1 2d-3 b-3 9-2 12-1f abe8-1 1056-3"⟩,
  ⟨["15.0", "v150"],
    "cf3 1db 1002f-2 340-2 8bf-9 3f7-59 14d6 a-1c 7cdd 23 216b-13 c52-5 106-5f 441-29 11e3 98-b 5a
    29c-2 10-1 25-2 c-4 f-1 b-1 d f-1 bc41 5c17-105f"⟩,
  ⟨["15.1", "v151"], "2ffc-3 1f0 2ba01-26d"⟩,
  ⟨["16.0", "v160"],
    "897 12b7-1 30 10a-1 79d-2 dbb-1 75e6-2 d-2 5de4-33 74d-4f 133-3a 484-62 2ee-13 4dd-39 361
    1506-f9a 1d06-39 c07-39 1f86 3f01-2b3 171d-2f 12b3-f 1c8-6 2f 8 16-3 a e2-24"⟩]

def ageNamed? (name : String) : Option CharSet :=
  match ages.dropWhile fun age => !age.names.contains name with
  | [] => none
  | _ :: later =>
    let all := (Category.charsOf Category.all).union CharProperty.noncharacterCodePoint.chars
    some (all.difference (.unionOf (later.map NamedTable.chars)))

end FunctionFlow
