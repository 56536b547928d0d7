/-
The helpers that generated JavaScript calls: reading and writing numbers, strings
and lists in a module's linear memory.
-/
import Bindery.Glue.Lines

namespace Bindery.Glue.JavaScript

/-- The lines of the helper module. -/
def helperLines : List Line := fixed
  ["// Helpers shared by the generated bindings. Values cross the boundary as",
   "// core wasm numbers; everything else lives in the guest's linear memory.",
   "",
   "const UTF8_DECODER = new TextDecoder(\"utf-8\");",
   "const UTF8_ENCODER = new TextEncoder();",
   "",
   "export function load(memory, kind, ptr) \x7b",
   "  const view = new DataView(memory.buffer);",
   "  switch (kind) \x7b",
   "    case \"u8\": return view.getUint8(ptr);",
   "    case \"s8\": return view.getInt8(ptr);",
   "    case \"u16\": return view.getUint16(ptr, true);",
   "    case \"s16\": return view.getInt16(ptr, true);",
   "    case \"u32\": return view.getUint32(ptr, true);",
   "    case \"s32\": return view.getInt32(ptr, true);",
   "    case \"u64\": return view.getBigUint64(ptr, true);",
   "    case \"s64\": return view.getBigInt64(ptr, true);",
   "    case \"f32\": return view.getFloat32(ptr, true);",
   "    case \"f64\": return view.getFloat64(ptr, true);",
   "  \x7d",
   "  throw new RangeError(`unknown load kind \"$\x7bkind\x7d\"`);",
   "\x7d",
   "",
   "export function store(memory, kind, ptr, value) \x7b",
   "  const view = new DataView(memory.buffer);",
   "  switch (kind) \x7b",
   "    case \"u8\": return view.setUint8(ptr, value);",
   "    case \"s8\": return view.setInt8(ptr, value);",
   "    case \"u16\": return view.setUint16(ptr, value, true);",
   "    case \"s16\": return view.setInt16(ptr, value, true);",
   "    case \"u32\": return view.setUint32(ptr, value, true);",
   "    case \"s32\": return view.setInt32(ptr, value, true);",
   "    case \"u64\": return view.setBigUint64(ptr, value, true);",
   "    case \"s64\": return view.setBigInt64(ptr, value, true);",
   "    case \"f32\": return view.setFloat32(ptr, value, true);",
   "    case \"f64\": return view.setFloat64(ptr, value, true);",
   "  \x7d",
   "  throw new RangeError(`unknown store kind \"$\x7bkind\x7d\"`);",
   "\x7d",
   "",
   "export function encodeString(memory, realloc, value) \x7b",
   "  if (typeof value !== \"string\") \x7b",
   "    throw new TypeError(\"expected a string\");",
   "  \x7d",
   "  const bytes = UTF8_ENCODER.encode(value);",
   "  const ptr = realloc(0, 0, 1, bytes.length);",
   "  new Uint8Array(memory.buffer, ptr, bytes.length).set(bytes);",
   "  return [ptr, bytes.length];",
   "\x7d",
   "",
   "export function decodeString(memory, ptr, len) \x7b",
   "  return UTF8_DECODER.decode(new Uint8Array(memory.buffer, ptr, len));",
   "\x7d",
   "",
   "export function loadString(memory, ptr) \x7b",
   "  return decodeString(memory, load(memory, \"u32\", ptr), load(memory, \"u32\", ptr + 4));",
   "\x7d",
   "",
   "export function storeString(memory, realloc, ptr, value) \x7b",
   "  const [data, len] = encodeString(memory, realloc, value);",
   "  store(memory, \"u32\", ptr, data);",
   "  store(memory, \"u32\", ptr + 4, len);",
   "\x7d",
   "",
   "export function lowerList(memory, realloc, values, size, align, storeElement) \x7b",
   "  const len = values.length;",
   "  const ptr = realloc(0, 0, align, len * size);",
   "  for (let i = 0; i < len; i++) \x7b",
   "    storeElement(values[i], ptr + i * size);",
   "  \x7d",
   "  return [ptr, len];",
   "\x7d",
   "",
   "export function liftList(memory, ptr, len, size, loadElement) \x7b",
   "  const values = [];",
   "  for (let i = 0; i < len; i++) \x7b",
   "    values.push(loadElement(ptr + i * size));",
   "  \x7d",
   "  return values;",
   "\x7d",
   "",
   "export function loadList(memory, ptr, size, loadElement) \x7b",
   "  return liftList(memory, load(memory, \"u32\", ptr), load(memory, \"u32\", ptr + 4), size, loadElement);",
   "\x7d",
   "",
   "export function storeList(memory, realloc, ptr, values, size, align, storeElement) \x7b",
   "  const [data, len] = lowerList(memory, realloc, values, size, align, storeElement);",
   "  store(memory, \"u32\", ptr, data);",
   "  store(memory, \"u32\", ptr + 4, len);",
   "\x7d",
   "",
   "export function liftEnum(cases, index) \x7b",
   "  if (index >= cases.length) \x7b",
   "    throw new RangeError(`invalid discriminant $\x7bindex\x7d`);",
   "  \x7d",
   "  return cases[index];",
   "\x7d",
   "",
   "export function lowerEnum(cases, value) \x7b",
   "  const index = cases.indexOf(value);",
   "  if (index < 0) \x7b",
   "    throw new TypeError(`\"$\x7bvalue\x7d\" is not one of $\x7bcases.join(\", \")\x7d`);",
   "  \x7d",
   "  return index;",
   "\x7d",
   "",
   "export function unsupported(message) \x7b",
   "  throw new Error(message);",
   "\x7d"]

end Bindery.Glue.JavaScript
