import FunctionFlow.Flow.Native

/-!
Contract: the built-in functions that every program can call.
-/

namespace FunctionFlow

def NativeTable.standard : NativeTable where
  entries := [
    ("Array", "Array"),
    ("Array_from", "from"),
    ("Array_isArray", "isArray"),
    ("Array_prototype_concat", "concat"),
    ("Array_prototype_every", "every"),
    ("Array_prototype_filter", "filter"),
    ("Array_prototype_find", "find"),
    ("Array_prototype_forEach", "forEach"),
    ("Array_prototype_includes", "includes"),
    ("Array_prototype_indexOf", "indexOf"),
    ("Array_prototype_join", "join"),
    ("Array_prototype_map", "map"),
    ("Array_prototype_pop", "pop"),
    ("Array_prototype_push", "push"),
    ("Array_prototype_reduce", "reduce"),
    ("Array_prototype_reverse", "reverse"),
    ("Array_prototype_shift", "shift"),
    ("Array_prototype_slice", "slice"),
    ("Array_prototype_some", "some"),
    ("Array_prototype_sort", "sort"),
    ("Array_prototype_splice", "splice"),
    ("Array_prototype_unshift", "unshift"),
    ("Boolean", "Boolean"),
    ("Date", "Date"),
    ("Date_now", "now"),
    ("Date_prototype_getTime", "getTime"),
    ("Error", "Error"),
    ("Function", "Function"),
    ("Function_prototype_apply", "apply"),
    ("Function_prototype_bind", "bind"),
    ("Function_prototype_call", "call"),
    ("JSON_parse", "parse"),
    ("JSON_stringify", "stringify"),
    ("Map", "Map"),
    ("Math_abs", "abs"),
    ("Math_ceil", "ceil"),
    ("Math_floor", "floor"),
    ("Math_log", "log"),
    ("Math_max", "max"),
    ("Math_min", "min"),
    ("Math_pow", "pow"),
    ("Math_random", "random"),
    ("Math_round", "round"),
    ("Math_sqrt", "sqrt"),
    ("Number", "Number"),
    ("Number_prototype_toFixed", "toFixed"),
    ("Object", "Object"),
    ("Object_assign", "assign"),
    ("Object_create", "create"),
    ("Object_defineProperty", "defineProperty"),
    ("Object_entries", "entries"),
    ("Object_freeze", "freeze"),
    ("Object_getOwnPropertyNames", "getOwnPropertyNames"),
    ("Object_getPrototypeOf", "getPrototypeOf"),
    ("Object_keys", "keys"),
    ("Object_prototype_hasOwnProperty", "hasOwnProperty"),
    ("Object_prototype_toString", "toString"),
    ("Object_prototype_valueOf", "valueOf"),
    ("Object_values", "values"),
    ("Promise", "Promise"),
    ("Promise_all", "all"),
    ("Promise_prototype_catch", "catch"),
    ("Promise_prototype_then", "then"),
    ("Promise_reject", "reject"),
    ("Promise_resolve", "resolve"),
    ("RangeError", "RangeError"),
    ("RegExp", "RegExp"),
    ("RegExp_prototype_exec", "exec"),
    ("RegExp_prototype_test", "test"),
    ("Set", "Set"),
    ("String", "String"),
    ("String_fromCharCode", "fromCharCode"),
    ("String_prototype_charAt", "charAt"),
    ("String_prototype_charCodeAt", "charCodeAt"),
    ("String_prototype_endsWith", "endsWith"),
    ("String_prototype_match", "match"),
    ("String_prototype_replace", "replace"),
    ("String_prototype_split", "split"),
    ("String_prototype_startsWith", "startsWith"),
    ("String_prototype_substr", "substr"),
    ("String_prototype_substring", "substring"),
    ("String_prototype_toLowerCase", "toLowerCase"),
    ("String_prototype_toUpperCase", "toUpperCase"),
    ("String_prototype_trim", "trim"),
    ("Symbol", "Symbol"),
    ("TypeError", "TypeError"),
    ("WeakMap", "WeakMap"),
    ("clearInterval", "clearInterval"),
    ("clearTimeout", "clearTimeout"),
    ("decodeURI", "decodeURI"),
    ("decodeURIComponent", "decodeURIComponent"),
    ("encodeURI", "encodeURI"),
    ("encodeURIComponent", "encodeURIComponent"),
    ("escape", "escape"),
    ("eval", "eval"),
    ("isFinite", "isFinite"),
    ("isNaN", "isNaN"),
    ("parseFloat", "parseFloat"),
    ("parseInt", "parseInt"),
    ("require", "require"),
    ("setInterval", "setInterval"),
    ("setTimeout", "setTimeout"),
    ("unescape", "unescape")]

end FunctionFlow
